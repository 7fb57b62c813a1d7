import SchemaSpec.Console.Printed
import SchemaSpec.Text.Blank

/-!
# Messages on the error console

What the error console shows of a message is up to the toolkit.  Three things are documented of it: what
has been escaped is shown as it was, the tags around it are not shown, and long lines are broken at
blanks.  From these, the words of a failure are shown, if they are literal.

* `Console.IsLiteral`: a message that names no pictures and has no backslashes that markup could take.
* `Console.letters`: what can be seen of a text.
* `Toolkit.Documented`: what is documented of a toolkit.
* `Toolkit.letters_printedFailure`: literal words are shown.
* `Markup.scan_induction`: markup is read backslash by backslash, tag by tag and character by character.
* `Markup.read_written`: what has been escaped is read as it was.
* `Console.documented_toolkit`: the plain toolkit keeps to what is documented.
-/

namespace SchemaSpec

open Text

namespace Console

/-- A message that says no more than its characters, all of which a console shows: no word of it has a
picture's name between colons, and no backslash is in front of a bracket or at the end. -/
structure IsLiteral (shows : Char → Bool) (t : Text) : Prop where
  shown : ∀ c ∈ t, shows c = true
  unnamed : ∀ w ∈ t.splitOnP isBlank, w.count ':' ≤ 1
  unslashed : ¬ ['\\', '['] <:+: t
  ended : t.getLast? ≠ some '\\'

/-- What can be seen of a text. -/
def letters (t : Text) : Text :=
  t.filter (fun c => !isBlank c)

end Console

namespace Toolkit

open Console

/-- The name of a style. -/
def IsStyle (t : Text) : Prop :=
  t ≠ [] ∧ ∀ c ∈ t, c.isLower = true

/-- What is documented of a toolkit whose error console has room, and shows some characters. -/
structure Documented (kit : Toolkit) (shows : Char → Bool) : Prop where
  /-- What has been escaped is shown as it was. -/
  escaped : ∀ t, IsLiteral shows t → kit.plain (kit.escape t) = t
  /-- The tags of a style are not shown. -/
  tagged : ∀ style t, IsStyle style → IsLiteral shows t →
    kit.plain (tag style ++ kit.escape t ++ tag ('/' :: style)) = kit.plain (kit.escape t)
  /-- Lines are broken, and blanks may be lost at their ends. -/
  broken : ∀ t, (∀ c ∈ t, shows c = true) → letters (kit.errors t) = letters t

theorem letters_printedFailure
    {kit : Toolkit}
    {shows : Char → Bool}
    (h : kit.Documented shows)
    {message : Text}
    (hliteral : IsLiteral shows message) :
    letters (kit.printedFailure message) = letters message := by
  have hred : IsStyle "red".toList := ⟨by decide, List.all_eq_true.1 (by decide)⟩
  have hplain : kit.plain (kit.marked "red" "" message) = message := by
    have hmarked : kit.marked "red" "" message
        = tag "red".toList ++ kit.escape message ++ tag ('/' :: "red".toList) := rfl
    rw [hmarked, h.tagged _ _ hred hliteral, h.escaped _ hliteral]
  rw [printedFailure, hplain, h.broken _ hliteral.shown]

end Toolkit

namespace Markup

section Reading

theorem slashes_succ
    (n : Nat)
    (t : Text) :
    slashes (n + 1) ++ t = slashes n ++ '\\' :: t := by
  rw [slashes, List.replicate_succ', List.append_assoc, List.singleton_append, slashes]

theorem getLast?_append_cons
    (s r : Text)
    (c : Char) :
    (s ++ c :: r).getLast? = some (r.getLast?.getD c) := by
  rw [List.getLast?_append, List.getLast?_cons, Option.some_or]

theorem append_tag
    (s content rest : Text) :
    s ++ (Toolkit.tag content ++ rest) = s ++ '[' :: content ++ ']' :: rest := by
  simp [Toolkit.tag]

theorem tag_cons_append
    (c : Char)
    (r t : Text) :
    Toolkit.tag (c :: r) ++ t = '[' :: c :: (r ++ ']' :: t) := by
  simp [Toolkit.tag]

theorem upToBracket?_eq_some
    {t content : Text}
    (h : upToBracket? t = some content) :
    ∃ rest, t = content ++ ']' :: rest := by
  induction t generalizing content with
  | nil =>
      cases h
  | cons c r ih =>
      rw [upToBracket?] at h
      split at h
      · rename_i hc
        cases h
        exact ⟨r, by rw [hc, List.nil_append]⟩
      · split at h
        · cases h
        · obtain ⟨inner, hinner, rfl⟩ := Option.map_eq_some_iff.1 h
          obtain ⟨rest, hrest⟩ := ih hinner
          exact ⟨rest, by rw [hrest, List.cons_append]⟩

theorem tag?_eq_some
    {t content : Text}
    (h : tag? t = some content) :
    ∃ rest, t = Toolkit.tag content ++ rest := by
  unfold tag? at h
  split at h
  · split at h
    · obtain ⟨inner, hinner, rfl⟩ := Option.map_eq_some_iff.1 h
      obtain ⟨rest, rfl⟩ := upToBracket?_eq_some hinner
      exact ⟨rest, by simp [Toolkit.tag]⟩
    · cases h
  · cases h

theorem upToBracket?_append
    {content rest : Text}
    (h : upToBracket? (content ++ ']' :: rest) = some content)
    (other : Text) :
    upToBracket? (content ++ ']' :: other) = some content := by
  induction content with
  | nil =>
      rfl
  | cons c r ih =>
      rw [List.cons_append, upToBracket?] at h ⊢
      split at h
      · cases h
      · rename_i hclosing
        split at h
        · cases h
        · rename_i hopening
          rw [if_neg hclosing, if_neg hopening]
          obtain ⟨inner, hinner, heq⟩ := Option.map_eq_some_iff.1 h
          rw [← List.cons.inj heq |>.2] at ih ⊢
          rw [ih ((List.cons.inj heq).2 ▸ hinner)]
          rfl

theorem upToBracket?_of_inside
    {content : Text}
    (h : ∀ c ∈ content, c ≠ '[' ∧ c ≠ ']')
    (rest : Text) :
    upToBracket? (content ++ ']' :: rest) = some content := by
  induction content with
  | nil =>
      rfl
  | cons c r ih =>
      have hc := h c List.mem_cons_self
      rw [List.cons_append, upToBracket?, if_neg hc.2, if_neg hc.1,
        ih (fun d hd => h d (List.mem_cons_of_mem c hd))]
      rfl

/-- What is behind a tag does not matter to it. -/
theorem tag?_append
    {content rest : Text}
    (h : tag? (Toolkit.tag content ++ rest) = some content)
    (other : Text) :
    tag? (Toolkit.tag content ++ other) = some content := by
  cases content with
  | nil =>
      cases h
  | cons c r =>
      rw [tag_cons_append, tag?] at h ⊢
      split at h
      · rename_i hstarts
        rw [if_pos hstarts]
        obtain ⟨inner, hinner, heq⟩ := Option.map_eq_some_iff.1 h
        cases heq
        rw [upToBracket?_append hinner]
        rfl
      · cases h

/-- Markup is read backslash by backslash, tag by tag and character by character. -/
theorem scan_induction
    {P : Nat → Text → Prop}
    (nil : ∀ n, P n [])
    (slash : ∀ n r, P (n + 1) r → P n ('\\' :: r))
    (tag : ∀ n content rest, tag? (Toolkit.tag content ++ rest) = some content → P 0 rest →
      P n (Toolkit.tag content ++ rest))
    (char : ∀ n c r, c ≠ '\\' → tag? (c :: r) = none → P 0 r → P n (c :: r))
    (n : Nat)
    (t : Text) :
    P n t := by
  induction hlength : t.length using Nat.strongRecOn generalizing n t with
  | ind k ih =>
      subst hlength
      cases t with
      | nil =>
          exact nil n
      | cons c r =>
          have hr := ih r.length (Nat.lt_succ_self _)
          by_cases hc : c = '\\'
          · rw [hc]
            exact slash n r (hr (n + 1) r rfl)
          · cases htag : tag? (c :: r) with
            | none =>
                exact char n c r hc htag (hr 0 r rfl)
            | some content =>
                obtain ⟨rest, hrest⟩ := tag?_eq_some htag
                have hshorter : rest.length < (c :: r).length := by
                  rw [hrest]
                  simp only [Toolkit.tag, List.length_append, List.length_cons]
                  omega
                have hrest' := ih rest.length hshorter 0 rest rfl
                rw [hrest] at htag ⊢
                exact tag n content rest htag hrest'

end Reading

section Scanning

/-- What is read of a text behind a number of backslashes. -/
def read (n : Nat) (t : Text) : Text :=
  plainPieces (piecesFrom 0 n t)

/-- A text behind a number of backslashes, with all of it escaped. -/
def written (n : Nat) (t : Text) : Text :=
  (piecesFrom 0 n t).flatMap Piece.escaped

theorem piecesFrom_append
    (s t : Text) :
    piecesFrom s.length 0 (s ++ t) = pieces t := by
  induction s with
  | nil =>
      rfl
  | cons c s ih =>
      exact ih

theorem piecesFrom_tag
    {content rest : Text}
    (h : tag? (Toolkit.tag content ++ rest) = some content)
    (n : Nat) :
    piecesFrom 0 n (Toolkit.tag content ++ rest) = .tag n content :: pieces rest := by
  have hform : Toolkit.tag content ++ rest = '[' :: (content ++ [']'] ++ rest) := rfl
  rw [hform] at h ⊢
  rw [piecesFrom, if_neg (by decide), h]
  have hskip := piecesFrom_append (content ++ [']']) rest
  rw [List.length_append, List.length_singleton] at hskip
  dsimp only
  rw [hskip]

theorem piecesFrom_char
    {c : Char}
    {r : Text}
    (hc : c ≠ '\\')
    (h : tag? (c :: r) = none)
    (n : Nat) :
    piecesFrom 0 n (c :: r) = (slashes n).map .char ++ .char c :: pieces r := by
  rw [piecesFrom, if_neg hc, h]
  rfl

theorem written_nil
    (n : Nat) :
    written n [] = slashes n := by
  rw [written, piecesFrom, List.flatMap_map]
  exact List.flatMap_singleton' _

theorem written_tag
    {content rest : Text}
    (h : tag? (Toolkit.tag content ++ rest) = some content)
    (n : Nat) :
    written n (Toolkit.tag content ++ rest)
      = slashes (2 * n + 1) ++ (Toolkit.tag content ++ written 0 rest) := by
  rw [written, piecesFrom_tag h, List.flatMap_cons, Piece.escaped, List.append_assoc]
  rfl

theorem written_char
    {c : Char}
    {r : Text}
    (hc : c ≠ '\\')
    (h : tag? (c :: r) = none)
    (n : Nat) :
    written n (c :: r) = slashes n ++ c :: written 0 r := by
  rw [written, piecesFrom_char hc h, List.flatMap_append, List.flatMap_map, List.flatMap_cons]
  exact congrArg (· ++ c :: written 0 r) (List.flatMap_singleton' _)

theorem read_slashes
    (m k : Nat)
    (t : Text) :
    read m (slashes k ++ t) = read (m + k) t := by
  induction k generalizing m with
  | zero =>
      rfl
  | succ k ih =>
      have hnext : read m (slashes (k + 1) ++ t) = read (m + 1) (slashes k ++ t) := rfl
      rw [hnext, ih, Nat.add_right_comm, Nat.add_assoc]

theorem read_tag
    {content rest : Text}
    (h : tag? (Toolkit.tag content ++ rest) = some content)
    (n : Nat) :
    read n (Toolkit.tag content ++ rest)
      = slashes (n / 2) ++ (if n % 2 = 1 then Toolkit.tag content else []) ++ read 0 rest := by
  rw [read, piecesFrom_tag h, plainPieces]
  rfl

/-- Backslashes in front of what is no bracket are read as they are. -/
theorem plainPieces_slashes
    {ps : List Piece}
    (h : ∀ qs, ps ≠ .char '[' :: qs)
    (n : Nat) :
    plainPieces ((slashes n).map .char ++ ps) = slashes n ++ plainPieces ps := by
  induction n with
  | zero =>
      rfl
  | succ n ih =>
      have hform : (slashes (n + 1)).map Piece.char ++ ps
          = .char '\\' :: ((slashes n).map .char ++ ps) := rfl
      rw [hform, plainPieces, ih]
      · rfl
      · intro qs heq _
        cases n with
        | zero =>
            exact h qs heq
        | succ n =>
            cases heq

theorem read_char
    {c : Char}
    {r : Text}
    (hc : c ≠ '\\')
    (htag : tag? (c :: r) = none)
    {n : Nat}
    (h : c = '[' → n = 0) :
    read n (c :: r) = slashes n ++ c :: read 0 r := by
  have hfirst : ∀ ps, plainPieces (.char c :: ps) = c :: plainPieces ps := by
    intro ps
    rw [plainPieces]
    exact fun _ _ heq => hc heq
  rw [read, piecesFrom_char hc htag]
  by_cases hbracket : c = '['
  · rw [h hbracket]
    exact hfirst _
  · rw [plainPieces_slashes, hfirst]
    · rfl
    · rintro qs heq
      cases heq
      exact hbracket rfl

end Scanning

section Escaping

/-- What may stand behind an escaped text: nothing, or a bracket. -/
def IsBehind (u : Text) : Prop :=
  u = [] ∨ ∃ v, u = '[' :: v

theorem exists_written
    (n : Nat)
    (t : Text) :
    ∃ rest, written n t = slashes n ++ rest := by
  induction n, t using scan_induction with
  | nil n =>
      exact ⟨[], by rw [written_nil, List.append_nil]⟩
  | slash n r ih =>
      obtain ⟨rest, hrest⟩ := ih
      exact ⟨'\\' :: rest, hrest.trans (slashes_succ n rest)⟩
  | tag n content rest htag ih =>
      have hcount : 2 * n + 1 = n + (n + 1) := by omega
      rw [written_tag htag, hcount, slashes, ← List.replicate_append_replicate, List.append_assoc]
      exact ⟨_, rfl⟩
  | char n c r hc htag ih =>
      exact ⟨_, written_char hc htag n⟩

theorem upToBracket?_slashes
    {t : Text}
    (h : upToBracket? t = none)
    (n : Nat) :
    upToBracket? (slashes n ++ t) = none := by
  induction n with
  | zero =>
      exact h
  | succ n ih =>
      have hstep : upToBracket? (slashes (n + 1) ++ t)
          = (upToBracket? (slashes n ++ t)).map ('\\' :: ·) := rfl
      rw [hstep, ih]
      rfl

/-- No closing bracket gets in front of the next opening one. -/
theorem upToBracket?_written
    {u : Text}
    (hu : IsBehind u)
    (n : Nat)
    (t : Text)
    (h : upToBracket? t = none) :
    upToBracket? (written n t ++ u) = none := by
  induction n, t using scan_induction with
  | nil n =>
      rw [written_nil]
      refine upToBracket?_slashes ?_ n
      rcases hu with rfl | ⟨v, rfl⟩
      · rfl
      · rfl
  | slash n r ih =>
      exact ih (Option.map_eq_none_iff.1 h)
  | tag n content rest htag ih =>
      rw [written_tag htag, List.append_assoc]
      exact upToBracket?_slashes rfl _
  | char n c r hc htag ih =>
      rw [written_char hc htag, List.append_assoc]
      refine upToBracket?_slashes ?_ n
      rw [List.cons_append, upToBracket?]
      rw [upToBracket?] at h
      split at h
      · cases h
      · rename_i hclosing
        rw [if_neg hclosing]
        split at h
        · rename_i hopening
          rw [if_pos hopening]
        · rename_i hopening
          rw [if_neg hopening, ih (Option.map_eq_none_iff.1 h)]
          rfl

/-- What opens no tag opens none in the escaped text. -/
theorem tag?_written
    {u r : Text}
    (hu : IsBehind u)
    {c : Char}
    (h : tag? (c :: r) = none) :
    tag? (c :: (written 0 r ++ u)) = none := by
  by_cases hc : c = '['
  · subst hc
    have hstart : ∀ d x, startsTag d = false → tag? ('[' :: d :: x) = none := by
      intro d x hd
      rw [tag?, hd]
      rfl
    cases r with
    | nil =>
        rw [written_nil]
        rcases hu with rfl | ⟨v, rfl⟩
        · exact h
        · exact hstart '[' v (by decide)
    | cons d s =>
        by_cases hd : d = '\\'
        · obtain ⟨rest, hrest⟩ := exists_written 1 s
          have hslash : written 0 (d :: s) = '\\' :: rest := by
            rw [hd]
            exact hrest
          rw [hslash]
          exact hstart '\\' _ (by decide)
        · cases htag : tag? (d :: s) with
          | some content =>
              obtain ⟨rest, hrest⟩ := tag?_eq_some htag
              rw [hrest] at htag ⊢
              rw [written_tag htag]
              exact hstart '\\' _ (by decide)
          | none =>
              rw [written_char hd htag]
              cases hstarts : startsTag d with
              | false =>
                  exact hstart d _ hstarts
              | true =>
                  rw [tag?, if_pos hstarts] at h
                  change tag? ('[' :: d :: (written 0 s ++ u)) = none
                  rw [tag?, if_pos hstarts, upToBracket?_written hu 0 s (Option.map_eq_none_iff.1 h)]
                  rfl
  · unfold tag?
    split
    · rename_i heq
      exact absurd (List.cons.inj heq).1 hc
    · rfl

/-- The escaped form of a text is read as the text. -/
theorem read_written
    {u : Text}
    (hu : IsBehind u)
    (n : Nat)
    (t : Text)
    (hunslashed : ¬ ['\\', '['] <:+: slashes n ++ t)
    (hended : (slashes n ++ t).getLast? ≠ some '\\') :
    read 0 (written n t ++ u) = slashes n ++ t ++ read 0 u := by
  -- A bracket behind a backslash is excluded, so only other characters have backslashes before them.
  have hnone : ∀ {m : Nat} {r : Text}, ¬ ['\\', '['] <:+: slashes m ++ '[' :: r → m = 0 := by
    intro m r h
    cases m with
    | zero =>
        rfl
    | succ m =>
        exact absurd ⟨slashes m, r, by rw [slashes_succ, List.append_assoc]; rfl⟩ h
  induction n, t using scan_induction with
  | nil n =>
      cases n with
      | zero =>
          rfl
      | succ n =>
          rw [slashes_succ, List.getLast?_append] at hended
          exact absurd rfl hended
  | slash n r ih =>
      rw [← slashes_succ] at hunslashed hended ⊢
      exact ih hunslashed hended
  | tag n content rest htag ih =>
      obtain rfl : n = 0 := hnone hunslashed
      have hrest : read 0 (written 0 rest ++ u) = rest ++ read 0 u := by
        refine ih (fun h => hunslashed (h.trans (List.suffix_append _ _).isInfix)) (fun h => hended ?_)
        have hlast : rest.getLast? = some '\\' := h
        rw [append_tag, getLast?_append_cons, hlast]
        rfl
      rw [written_tag htag, List.append_assoc, read_slashes, List.append_assoc,
        read_tag (tag?_append htag _), hrest]
      simp [slashes]
  | char n c r hc htag ih =>
      have hrest : read 0 (written 0 r ++ u) = r ++ read 0 u := by
        refine ih (fun h => hunslashed (h.trans ?_)) (fun h => hended ?_)
        · exact ⟨slashes n ++ [c], [], by simp [slashes]⟩
        · have hlast : r.getLast? = some '\\' := h
          rw [getLast?_append_cons, hlast]
          rfl
      have hslash : c = '[' → n = 0 := by
        intro hbracket
        rw [hbracket] at hunslashed
        exact hnone hunslashed
      rw [written_char hc htag, List.append_assoc, read_slashes, Nat.zero_add, List.cons_append,
        read_char hc (tag?_written hu htag) hslash, hrest]
      simp

/-- The last character of an escaped text is that of the text. -/
theorem getLast?_written
    (n : Nat)
    (t : Text) :
    (written n t).getLast? = (slashes n ++ t).getLast? := by
  induction n, t using scan_induction with
  | nil n =>
      rw [written_nil, List.append_nil]
  | slash n r ih =>
      rw [← slashes_succ]
      exact ih
  | tag n content rest htag ih =>
      rw [written_tag htag, append_tag, append_tag, getLast?_append_cons, getLast?_append_cons, ih]
      rfl
  | char n c r hc htag ih =>
      rw [written_char hc htag, getLast?_append_cons, getLast?_append_cons, ih]
      rfl

theorem guardEnd_of_ended
    {t : Text}
    (h : t.getLast? ≠ some '\\') :
    guardEnd t = t := by
  unfold guardEnd
  rw [← List.head?_reverse] at h
  cases hreverse : t.reverse with
  | nil =>
      rfl
  | cons c r =>
      rw [hreverse] at h
      have hc : (c == '\\') = false := by simpa using h
      rw [List.takeWhile_cons, hc]
      rfl

end Escaping

end Markup

namespace Console

open Markup

/-- What has been escaped is read as it was, whatever markup is behind it. -/
theorem plain_escape_append
    {shows : Char → Bool}
    {t u : Text}
    (h : IsLiteral shows t)
    (hu : IsBehind u) :
    Markup.plain (Markup.escape t ++ u) = t ++ Markup.plain u := by
  have hescape : Markup.escape t = written 0 t := by
    refine guardEnd_of_ended ?_
    have hlast := getLast?_written 0 t
    rw [written] at hlast
    exact hlast ▸ h.ended
  rw [hescape]
  exact read_written hu 0 t h.unslashed h.ended

theorem plain_escape
    {shows : Char → Bool}
    {t : Text}
    (h : IsLiteral shows t) :
    Markup.plain (Markup.escape t) = t := by
  have hplain := plain_escape_append h (Or.inl rfl)
  rw [List.append_nil] at hplain
  exact hplain.trans (List.append_nil t)

theorem letters_expandTabs
    (column : Nat)
    (t : Text) :
    letters (expandTabs column t) = letters t := by
  induction t generalizing column with
  | nil =>
      rfl
  | cons c r ih =>
      rw [expandTabs]
      split
      · rename_i htab
        have hblanks : letters (List.replicate (toTabStop column) ' ') = [] :=
          List.filter_replicate_of_neg (by decide)
        rw [letters, List.filter_append, ← letters, ← letters, hblanks, ih, htab]
        rfl
      · split
        · rename_i hbreak
          rw [hbreak]
          exact ih 0
        · rw [letters, letters, List.filter_cons, List.filter_cons, ← letters, ← letters, ih]

/-- A console shows all that can be seen of a text. -/
theorem letters_shown
    {t : Text}
    (h : ∀ c ∈ t, isControl c = false) :
    letters (shown t) = letters t := by
  have hbreak : letters ['\n'] = [] := by
    decide
  have hkept : t.filter (fun c => !isControl c) = t :=
    List.filter_eq_self.2 (fun c hc => by rw [h c hc]; rfl)
  rw [shown, hkept, letters, List.filter_append, ← letters, ← letters, hbreak, letters_expandTabs,
    List.append_nil]

/-- The tag of a style, or of its end, is not read. -/
theorem plain_tag_append
    {c : Char}
    {style : Text}
    (hc : startsTag c = true)
    (h : ∀ d ∈ style, d.isLower = true)
    (rest : Text) :
    Markup.plain (Toolkit.tag (c :: style) ++ rest) = Markup.plain rest := by
  have hinside : ∀ d ∈ style, d ≠ '[' ∧ d ≠ ']' := by
    intro d hd
    constructor
    · rintro rfl
      exact absurd (h _ hd) (by decide)
    · rintro rfl
      exact absurd (h _ hd) (by decide)
  have htag : tag? (Toolkit.tag (c :: style) ++ rest) = some (c :: style) := by
    rw [tag_cons_append, tag?, if_pos hc, upToBracket?_of_inside hinside]
    rfl
  exact read_tag htag 0

/-- The plain toolkit keeps to what is documented, and shows every character that moves no cursor. -/
theorem documented_toolkit :
    toolkit.Documented (fun c => !isControl c) where
  escaped _ h := plain_escape h
  tagged style t hstyle h := by
    cases style with
    | nil =>
        exact absurd rfl hstyle.1
    | cons c style =>
        have hc : startsTag c = true := by
          simp [startsTag, hstyle.2 c List.mem_cons_self]
        have hend : IsBehind (Toolkit.tag ('/' :: c :: style)) := Or.inr ⟨_, rfl⟩
        have hnothing := plain_tag_append (by decide : startsTag '/' = true) hstyle.2 []
        rw [List.append_nil] at hnothing
        change Markup.plain (Toolkit.tag (c :: style) ++ Markup.escape t
          ++ Toolkit.tag ('/' :: c :: style)) = Markup.plain (Markup.escape t)
        rw [List.append_assoc,
          plain_tag_append hc (fun d hd => hstyle.2 d (List.mem_cons_of_mem c hd)),
          plain_escape_append h hend, hnothing, plain_escape h]
        exact List.append_nil t
  broken t h := letters_shown (fun c hc => by simpa using h c hc)

end Console
end SchemaSpec
