import Bikeshed.Shell.Shell

/-!
# Editing a command

What the keys leave on the line (`edited`), what the shell's array and the screen hold while it is
typed, and when the line ends.
-/

namespace Bikeshed.Shell

open Lib Vga

variable {s s' : State} {t : Screen} {line line' keys : List Byte} {key : Byte} {base i : ℕ}
  {v : ℕ → VideoCell}

/-! ## The line -/

/-- What a key does to the line. -/
def edit (line : List Byte) (key : Byte) : List Byte :=
  if key = newlineKey then line
  else if key = backspaceKey then line.dropLast
  else line ++ [key]

/-- What is left on the line after these keys. -/
def edited (keys : List Byte) : List Byte := keys.foldl edit []

/-- The key after which the line is read: a newline, unless the line is empty, or the character
that fills the array. -/
def Ends (line : List Byte) (key : Byte) : Prop :=
  key = newlineKey ∧ line ≠ [] ∨ (edit line key).length = commandSize - 1

instance (line : List Byte) (key : Byte) : Decidable (Ends line key) :=
  inferInstanceAs (Decidable (_ ∨ _))

/-- The line that is read and the keys that are left, once a key has ended it. -/
def lineOf : List Byte → List Byte → Option (List Byte × List Byte)
  | _, [] => none
  | line, key :: keys =>
    if Ends line key then some (edit line key, keys) else lineOf (edit line key) keys

/-- The greatest length that the line has had. -/
def longest : List Byte → List Byte → ℕ
  | line, [] => line.length
  | line, key :: keys =>
    max line.length
      (if Ends line key then (edit line key).length else longest (edit line key) keys)

lemma length_le_longest (line keys : List Byte) : line.length ≤ longest line keys := by
  cases keys with
  | nil => exact le_rfl
  | cons key keys => exact le_max_left _ _

lemma length_edit_le (line : List Byte) (key : Byte) :
    (edit line key).length ≤ line.length + 1 := by
  rw [edit]
  split
  · omega
  split
  · rw [List.length_dropLast]
    omega
  · rw [List.length_append, List.length_singleton]

/-- What is on the line has been typed. -/
lemma mem_edit {c : Byte} (h : c ∈ edit line key) : c ∈ line ∨ c = key := by
  rw [edit] at h
  split at h
  · exact .inl h
  split at h
  · exact .inl (List.mem_of_mem_dropLast h)
  · rcases List.mem_append.mp h with h | h
    · exact .inl h
    · exact .inr (List.mem_singleton.mp h)

lemma mem_lineOf {rest : List Byte} {c : Byte} (h : lineOf line keys = some (line', rest))
    (hc : c ∈ line') : c ∈ line ∨ c ∈ keys := by
  induction keys generalizing line with
  | nil => cases h
  | cons key keys ih =>
    rw [lineOf] at h
    split at h
    · cases h
      rcases mem_edit hc with h | rfl
      · exact .inl h
      · exact .inr List.mem_cons_self
    · rcases ih h with h | h
      · rcases mem_edit h with h | rfl
        · exact .inl h
        · exact .inr List.mem_cons_self
      · exact .inr (List.mem_cons_of_mem key h)

/-! ## Strings -/

/-- The string in an array: the bytes before the first NUL. -/
def cstring (a : List Byte) : List Byte := a.takeWhile (· ≠ 0)

@[simp] lemma cstring_zero (a : List Byte) : cstring (0 :: a) = [] := rfl

lemma cstring_cons {c : Byte} (hc : c ≠ 0) (a : List Byte) :
    cstring (c :: a) = c :: cstring a := by
  rw [cstring, List.takeWhile_cons, if_pos (decide_eq_true hc)]
  rfl

/-- The NUL after some other bytes. -/
lemma cstring_append {a : List Byte} (ha : ∀ c ∈ a, c ≠ 0) (b : List Byte) :
    cstring (a ++ 0 :: b) = a := by
  induction a with
  | nil => rfl
  | cons c a ih =>
    rw [List.cons_append, cstring_cons (ha c List.mem_cons_self),
      ih fun c' hc' => ha c' (List.mem_cons_of_mem c hc')]

/-- `streq` compares the strings of two arrays. -/
lemma streq_spec {a b : List Byte} (ha : (0 : Byte) ∈ a) (hb : (0 : Byte) ∈ b) :
    streq a b = some (decide (cstring a = cstring b)) := by
  induction a generalizing b with
  | nil => cases ha
  | cons c1 a ih =>
    cases b with
    | nil => cases hb
    | cons c2 b =>
      rw [streq]
      by_cases h1 : c1 = 0
      · subst h1
        by_cases h2 : c2 = 0
        · subst h2
          rfl
        · rw [if_neg fun h => h.1 rfl, cstring_zero, cstring_cons h2,
            decide_eq_false fun h => h2 h.2, decide_eq_false fun h => by cases h]
      · by_cases h2 : c2 = 0
        · subst h2
          rw [if_neg fun h => h.2 rfl, cstring_zero, cstring_cons h1,
            decide_eq_false fun h => h1 h.1, decide_eq_false fun h => by cases h]
        · have ha' : (0 : Byte) ∈ a := (List.mem_cons.mp ha).resolve_left fun h => h1 h.symm
          have hb' : (0 : Byte) ∈ b := (List.mem_cons.mp hb).resolve_left fun h => h2 h.symm
          rw [if_pos ⟨h1, h2⟩, cstring_cons h1, cstring_cons h2]
          by_cases h : c1 = c2
          · rw [if_neg (not_not.mpr h), ih ha' hb', h]
            simp
          · rw [if_pos h]
            simp [h]

/-! ## Writing -/

/-- The shell's screen, wherever its cursor is. -/
structure Ready (t : Screen) : Prop where
  inRange : InRange t
  color : t.color = textColor

lemma pos_eq_zero : pos t = 0 ↔ t.y = 0 ∧ t.x = 0 := by
  have hx : t.x = 0 ↔ t.x.toNat = 0 := BitVec.toNat_inj.symm
  have hy : t.y = 0 ↔ t.y.toNat = 0 := BitVec.toNat_inj.symm
  rw [hx, hy, pos, maxX]
  omega

/-- The first cell is only written on a screen that has been cleared. -/
def background (t : Screen) : ℕ → VideoCell :=
  if pos t = 0 then fun i => if i < maxX * maxY then cleared else t.video i else t.video

lemma writeChar_background (h : Ready t) (c : Byte) :
    ∃ t', writeChar c t = textModeChar c t' ∧ Ready t' ∧ pos t' = pos t ∧
      t'.video = background t := by
  by_cases h0 : pos t = 0
  · have hkeep : ∀ (s : Screen) (_ : ℕ → VideoCell), s.x = t.x ∧ s.y = t.y ∧ s.color = t.color →
        s.x = t.x ∧ s.y = t.y ∧ s.color = t.color := fun _ _ hs => hs
    obtain ⟨t', hrun, ⟨hx, hy, hcolor⟩, hp⟩ := draws_clearScreen hkeep t ⟨rfl, rfl, rfl⟩
    refine ⟨t', ?_, ⟨⟨?_, ?_⟩, hcolor.trans h.color⟩, ?_, ?_⟩
    · rw [writeChar, if_pos (pos_eq_zero.mp h0), hrun]
      rfl
    · rw [hx]
      exact h.inRange.x_lt
    · rw [hy]
      exact h.inRange.y_lt
    · rw [pos, hx, hy, pos]
    · funext i
      rw [background, if_pos h0]
      split
      case isTrue hi => exact hp.inside i hi
      case isFalse hi => exact hp.outside i hi
  · refine ⟨t, ?_, h, rfl, ?_⟩
    · rw [writeChar, if_neg fun h' => h0 (pos_eq_zero.mpr h')]
      rfl
    · rw [background, if_neg h0]

lemma Ready.wrote {written : Option (ℕ × Byte)} {next : ℕ} {t' : Screen} (ht : Ready t)
    (h : Wrote t written next t') : Ready t' :=
  ⟨h.inRange, h.color.trans ht.color⟩

/-- Nothing that is written is out of range. -/
lemma textModeChar_ready (h : Ready t) (c : Byte) :
    ∃ t', textModeChar c t = some t' ∧ Ready t' := by
  by_cases hplain : Plain c
  · obtain ⟨t', hrun, hw⟩ := textModeChar_plain h.inRange hplain
    exact ⟨t', hrun, h.wrote hw⟩
  by_cases hback : c = 0x08
  · obtain ⟨t', hrun, hw⟩ := textModeChar_backspace h.inRange
    rw [hback]
    exact ⟨t', hrun, h.wrote hw⟩
  · obtain ⟨t', hrun, hw⟩ := textModeChar_newline h.inRange
    have hline : c = 0x0D ∨ c = 0x0A := by
      simp only [Plain, not_and, not_not] at hplain
      by_contra hne
      push Not at hne
      exact hback (hplain hne.1 hne.2)
    refine ⟨t', ?_, h.wrote hw⟩
    rw [← hrun, textModeChar, if_pos hline, textModeChar, if_pos (.inr rfl)]

lemma writeChar_ready (h : Ready t) (c : Byte) : ∃ t', writeChar c t = some t' ∧ Ready t' := by
  obtain ⟨t1, hrun, h1, -, -⟩ := writeChar_background h c
  rw [hrun]
  exact textModeChar_ready h1 c

lemma writeString_ready (h : Ready t) (str : List Byte) :
    ∃ t', writeString str t = some t' ∧ Ready t' := by
  induction str generalizing t with
  | nil => exact ⟨t, rfl, h⟩
  | cons c str ih =>
    obtain ⟨t1, hrun1, h1⟩ := writeChar_ready h c
    obtain ⟨t2, hrun2, h2⟩ := ih h1
    refine ⟨t2, ?_, h2⟩
    rw [writeString, List.foldlM_cons, hrun1]
    exact hrun2

/-- After a newline the cursor is at the start of a line. -/
lemma writeString_newline (h : Ready t) (str : List Byte) :
    ∃ t', writeString (str ++ [newlineKey]) t = some t' ∧ Ready t' ∧ pos t' % maxX = 0 := by
  obtain ⟨t1, hrun1, h1⟩ := writeString_ready h str
  obtain ⟨t2, hrun2, h2, -, -⟩ := writeChar_background h1 newlineKey
  obtain ⟨t3, hrun3, hw⟩ := textModeChar_newline h2.inRange
  refine ⟨t3, ?_, h2.wrote hw, ?_⟩
  · rw [writeString, List.foldlM_append]
    change (writeString str t >>= _) = _
    rw [hrun1]
    change (writeChar newlineKey t1 >>= some) = _
    rw [hrun2]
    change (textModeChar 0x0A t2 >>= some) = _
    rw [hrun3]
    rfl
  · rw [hw.pos_eq]
    exact Nat.mul_mod_left _ _

/-! ## A key -/

/-- The array holds the line. -/
structure Editing (s : State) (line : List Byte) : Prop where
  size : s.command.length = commandSize
  length : s.commandLength.toNat = line.length
  fits : line.length < commandSize
  stored : s.command.take line.length = line
  ready : Ready s.screen

/-- The screen shows the prompt and the text after it. The cells after the text are as they were
or blank. -/
structure Shown (base : ℕ) (v : ℕ → VideoCell) (text : List Byte) (t : Screen) : Prop where
  prompt : t.video base = ⟨0x3E, textColor⟩
  cells : ∀ k (hk : k < text.length), t.video (base + 1 + k) = ⟨text[k], textColor⟩
  before : ∀ i < base, t.video i = v i
  after : ∀ i, base + text.length < i → t.video i = v i ∨ t.video i = ⟨0x20, textColor⟩

/-- The cursor is behind the line. -/
structure Echoed (base : ℕ) (v : ℕ → VideoCell) (line : List Byte) (t : Screen) : Prop extends
    Shown base v line t where
  cursor : pos t = base + 1 + line.length

lemma Echoed.background_eq (h : Echoed base v line t) : background t = t.video := by
  rw [background, if_neg]
  rw [h.cursor]
  omega

/-- The cell before the cursor is cleared. -/
lemma Echoed.erase {t' : Screen} (h : Echoed base v line t) (ht : Ready t) (hne : line ≠ [])
    (hw : Wrote t (some (pos t - 1, 0x20)) (pos t - 1) t') : Echoed base v line.dropLast t' := by
  have hlen := List.length_pos_of_ne_nil hne
  have hdrop : line.dropLast.length = line.length - 1 := List.length_dropLast
  have hvideo : t'.video = Function.update t.video (base + line.length) ⟨0x20, textColor⟩ := by
    have hcell : pos t - 1 = base + line.length := by
      rw [h.cursor]
      omega
    rw [hw.video, ht.color, hcell]
    rfl
  refine ⟨⟨?_, ?_, ?_, ?_⟩, ?_⟩
  · rw [hvideo, Function.update_of_ne (by omega)]
    exact h.prompt
  · intro k hk
    rw [hvideo, Function.update_of_ne (by omega), h.cells k (by omega), List.getElem_dropLast]
  · intro i hi
    rw [hvideo, Function.update_of_ne (by omega)]
    exact h.before i hi
  · intro i hi
    rw [hvideo]
    by_cases hlast : i = base + line.length
    · right
      rw [hlast, Function.update_self]
    · rw [Function.update_of_ne hlast]
      exact h.after i (by omega)
  · rw [hw.pos_eq, h.cursor, hdrop]
    omega

/-- The cell of the cursor is written. -/
lemma Echoed.append {t' : Screen} (h : Echoed base v line t) (ht : Ready t)
    (hroom : base + 1 + (line.length + 1) < maxX * maxY)
    (hw : Wrote t (some (pos t, key)) ((pos t + 1) % (maxX * maxY)) t') :
    Echoed base v (line ++ [key]) t' := by
  have hlen : (line ++ [key]).length = line.length + 1 := List.length_append
  have hvideo : t'.video = Function.update t.video (base + 1 + line.length) ⟨key, textColor⟩ := by
    rw [hw.video, ht.color, h.cursor]
    rfl
  refine ⟨⟨?_, ?_, ?_, ?_⟩, ?_⟩
  · rw [hvideo, Function.update_of_ne (by omega)]
    exact h.prompt
  · intro k hk
    rw [hvideo]
    by_cases hlast : k = line.length
    · subst hlast
      rw [Function.update_self, List.getElem_concat_length rfl]
    · rw [Function.update_of_ne (by omega), h.cells k (by omega),
        List.getElem_append_left (by omega)]
  · intro i hi
    rw [hvideo, Function.update_of_ne (by omega)]
    exact h.before i hi
  · intro i hi
    rw [hvideo, Function.update_of_ne (by omega)]
    exact h.after i (by omega)
  · rw [hw.pos_eq, h.cursor, hlen, Nat.mod_eq_of_lt (by omega)]
    omega

lemma edit_backspace (line : List Byte) : edit line backspaceKey = line.dropLast := rfl

lemma edit_char (hn : key ≠ newlineKey) (hb : key ≠ backspaceKey) :
    edit line key = line ++ [key] := by
  rw [edit, if_neg hn, if_neg hb]

/-- A key that is no newline, in the array and on the screen. -/
lemma pressKey_spec (h : Editing s line) (hlt : line.length < commandSize - 1)
    (hn : key ≠ newlineKey) : ∃ s', pressKey key s = some s' ∧ Editing s' (edit line key) ∧
      ∀ base v, key ≠ 0x0D → Echoed base v line s.screen →
        base + 1 + (edit line key).length < maxX * maxY →
        Echoed base v (edit line key) s'.screen := by
  have hlen := h.length
  have h256 : commandSize = 256 := rfl
  obtain ⟨t1, hwrite, ht1, hpos1, hvideo1⟩ := writeChar_background h.ready key
  -- the screen that is written on
  have hbefore {base v} (he : Echoed base v line s.screen) : Echoed base v line t1 := by
    rw [he.background_eq] at hvideo1
    refine ⟨⟨?_, ?_, ?_, ?_⟩, hpos1.trans he.cursor⟩
    · rw [hvideo1]
      exact he.prompt
    · rw [hvideo1]
      exact he.cells
    · rw [hvideo1]
      exact he.before
    · rw [hvideo1]
      exact he.after
  by_cases hb : key = backspaceKey
  · subst hb
    rw [pressKey, if_pos rfl, edit_backspace]
    by_cases hempty : line = []
    · -- there is nothing to erase
      subst hempty
      have hzero : ¬ s.commandLength > 0 := by
        intro hpos
        have := BitVec.lt_def.mp hpos
        rw [hlen] at this
        exact absurd this (Nat.not_lt_zero _)
      rw [if_neg hzero]
      exact ⟨s, rfl, h, fun base v _ he _ => he⟩
    · have hpos : 0 < line.length := List.length_pos_of_ne_nil hempty
      have hgt : s.commandLength > 0 := BitVec.lt_def.mpr (hlen.symm ▸ hpos)
      have hsub : (s.commandLength - 1).toNat = line.length - 1 := by
        have := s.commandLength.isLt
        bv_omega
      obtain ⟨t2, hrun2, hw⟩ := textModeChar_backspace ht1.inRange
      rw [if_pos hgt, echo, hwrite]
      refine ⟨{ s with commandLength := s.commandLength - 1, screen := t2 }, ?_, ?_, ?_⟩
      · change (textModeChar 0x08 t1 >>= _) = _
        rw [hrun2]
        rfl
      · refine ⟨h.size, ?_, ?_, ?_, ht1.wrote hw⟩
        · rw [List.length_dropLast]
          exact hsub
        · rw [List.length_dropLast]
          exact lt_of_le_of_lt (Nat.sub_le _ _) h.fits
        · rw [List.length_dropLast]
          calc s.command.take (line.length - 1)
              = (s.command.take line.length).take (line.length - 1) := by
                rw [List.take_take, Nat.min_eq_left (Nat.sub_le _ _)]
            _ = line.dropLast := by rw [h.stored, List.dropLast_eq_take]
      · intro base v _ he _
        have he1 := hbefore he
        have hne : ¬ pos t1 = 0 := by
          rw [he1.cursor]
          omega
        rw [if_neg hne] at hw
        exact he1.erase ht1 hempty hw
  · -- a character at the end of the line
    have hgt : s.commandLength.toNat < s.command.length := by
      rw [hlen, h.size]
      exact h.fits
    have hsucc : (s.commandLength + 1).toNat = line.length + 1 := by
      rw [BitVec.toNat_add, hlen]
      exact Nat.mod_eq_of_lt (by change line.length + 1 < 4294967296; omega)
    rw [pressKey, if_neg hb, setCommand, if_pos hgt, edit_char hn hb]
    obtain ⟨t2, hrun2, ht2⟩ := writeChar_ready h.ready key
    refine ⟨{ s with
      command := s.command.set s.commandLength.toNat key
      commandLength := s.commandLength + 1
      screen := t2 }, ?_, ?_, ?_⟩
    · change (writeChar key s.screen >>= _) = _
      rw [hrun2]
      rfl
    · refine ⟨?_, ?_, ?_, ?_, ht2⟩
      · rw [List.length_set]
        exact h.size
      · rw [List.length_append]
        exact hsucc
      · rw [List.length_append, List.length_singleton]
        omega
      · rw [List.length_append, List.length_singleton, hlen, List.take_add_one,
          List.getElem?_set_self (hlen ▸ hgt), List.take_set_of_le (le_refl _), h.stored]
        rfl
    · intro base v hcr he hroom
      have he1 := hbefore he
      have hplain : Plain key := ⟨hcr, hn, hb⟩
      obtain ⟨t3, hrun3, hw⟩ := textModeChar_plain ht1.inRange hplain
      rw [hwrite, hrun3] at hrun2
      cases hrun2
      rw [List.length_append, List.length_singleton] at hroom
      exact he1.append ht1 hroom hw

/-! ## The loop -/

/-- A key that does not end the line. -/
lemma readLoop_stays (h : Editing s line) (hlt : line.length < commandSize - 1)
    (hends : ¬ Ends line key) : ∃ s', readLoop (key :: keys) s = readLoop keys s' ∧
      Editing s' (edit line key) ∧ (edit line key).length < commandSize - 1 ∧
      ∀ base v, key ≠ 0x0D → Echoed base v line s.screen →
        base + 1 + (edit line key).length < maxX * maxY →
        Echoed base v (edit line key) s'.screen := by
  have hroom : s.commandLength.toNat < commandSize - 1 := by
    rw [h.length]
    exact hlt
  by_cases hn : key = newlineKey
  · -- a newline on an empty line
    have hempty : line = [] := by
      by_contra hne
      exact hends (.inl ⟨hn, hne⟩)
    have hzero : ¬ s.commandLength > 0 := by
      intro hpos
      have hlt := BitVec.lt_def.mp hpos
      rw [h.length, hempty] at hlt
      exact absurd hlt (Nat.not_lt_zero _)
    have hedit : edit line key = line := if_pos hn
    rw [readLoop, if_pos hroom, if_pos hn, if_neg hzero, hedit]
    exact ⟨s, rfl, h, hlt, fun base v _ he _ => he⟩
  · obtain ⟨s1, hrun, h1, hecho⟩ := pressKey_spec h hlt hn
    have hle := length_edit_le line key
    have hne : (edit line key).length ≠ commandSize - 1 := fun heq => hends (.inr heq)
    rw [readLoop, if_pos hroom, if_neg hn, hrun]
    exact ⟨s1, rfl, h1, by omega, hecho⟩

/-- The key that ends the line. -/
lemma readLoop_ends (keys : List Byte) (h : Editing s line)
    (hlt : line.length < commandSize - 1) (hends : Ends line key) :
    ∃ s', readLoop (key :: keys) s = some (.line keys, s') ∧
      Editing s' (edit line key) ∧
      ∀ base v, key ≠ 0x0D → Echoed base v line s.screen →
        base + 1 + (edit line key).length < maxX * maxY →
        Echoed base v (edit line key) s'.screen := by
  have hroom : s.commandLength.toNat < commandSize - 1 := by
    rw [h.length]
    exact hlt
  by_cases hn : key = newlineKey
  · have hedit : edit line key = line := if_pos hn
    have hne : line ≠ [] := by
      rcases hends with ⟨-, hne⟩ | hfull
      · exact hne
      · rw [hedit] at hfull
        omega
    have hpos : s.commandLength > 0 := by
      apply BitVec.lt_def.mpr
      rw [h.length]
      exact List.length_pos_of_ne_nil hne
    rw [readLoop, if_pos hroom, if_pos hn, if_pos hpos, hedit]
    exact ⟨s, rfl, h, fun base v _ he _ => he⟩
  · -- the array is full
    have hfull : (edit line key).length = commandSize - 1 :=
      hends.resolve_left fun hnl => hn hnl.1
    obtain ⟨s1, hrun, h1, hecho⟩ := pressKey_spec h hlt hn
    have hstop : ¬ s1.commandLength.toNat < commandSize - 1 := by
      rw [h1.length, hfull]
      exact lt_irrefl _
    rw [readLoop, if_pos hroom, if_neg hn, hrun]
    refine ⟨s1, ?_, h1, hecho⟩
    change readLoop keys s1 = _
    cases keys with
    | nil => rw [readLoop, if_neg hstop]
    | cons key' keys => rw [readLoop, if_neg hstop]

/-- The line that is being typed. -/
lemma readLoop_waits (h : Editing s line) (hlt : line.length < commandSize - 1)
    (hline : lineOf line keys = none) : ∃ s', readLoop keys s = some (.waiting, s') ∧
      ∀ base v, (∀ key ∈ keys, key ≠ 0x0D) → Echoed base v line s.screen →
        base + 1 + longest line keys < maxX * maxY →
        Echoed base v (keys.foldl edit line) s'.screen := by
  induction keys generalizing s line with
  | nil =>
    refine ⟨s, ?_, fun base v _ he _ => he⟩
    rw [readLoop, if_pos (by rw [h.length]; exact hlt)]
  | cons key keys ih =>
    by_cases hends : Ends line key
    · rw [lineOf, if_pos hends] at hline
      cases hline
    · rw [lineOf, if_neg hends] at hline
      obtain ⟨s1, hrun1, h1, hlt1, hecho1⟩ := readLoop_stays h hlt hends
      obtain ⟨s2, hrun2, hecho2⟩ := ih h1 hlt1 hline
      refine ⟨s2, hrun1.trans hrun2, fun base v hcr he hfits => ?_⟩
      rw [longest, if_neg hends] at hfits
      have hle := length_le_longest (edit line key) keys
      have hmax := le_max_right line.length (longest (edit line key) keys)
      apply hecho2 base v (fun key' hk => hcr key' (List.mem_cons_of_mem key hk)) _ (by omega)
      exact hecho1 base v (hcr key List.mem_cons_self) he (by omega)

/-- The line that has been typed. -/
lemma readLoop_reads {rest : List Byte} (h : Editing s line)
    (hlt : line.length < commandSize - 1) (hline : lineOf line keys = some (line', rest)) :
    ∃ s', readLoop keys s = some (.line rest, s') ∧ Editing s' line' ∧
      ∀ base v, (∀ key ∈ keys, key ≠ 0x0D) → Echoed base v line s.screen →
        base + 1 + longest line keys < maxX * maxY → Echoed base v line' s'.screen := by
  induction keys generalizing s line with
  | nil => cases hline
  | cons key keys ih =>
    have hmax := le_max_right line.length
      (if Ends line key then (edit line key).length else longest (edit line key) keys)
    by_cases hends : Ends line key
    · rw [lineOf, if_pos hends] at hline
      cases hline
      obtain ⟨s1, hrun1, h1, hecho1⟩ := readLoop_ends rest h hlt hends
      refine ⟨s1, hrun1, h1, fun base v hcr he hfits => ?_⟩
      rw [if_pos hends] at hmax
      rw [longest, if_pos hends] at hfits
      exact hecho1 base v (hcr key List.mem_cons_self) he (by omega)
    · rw [lineOf, if_neg hends] at hline
      obtain ⟨s1, hrun1, h1, hlt1, hecho1⟩ := readLoop_stays h hlt hends
      obtain ⟨s2, hrun2, h2, hecho2⟩ := ih h1 hlt1 hline
      refine ⟨s2, hrun1.trans hrun2, h2, fun base v hcr he hfits => ?_⟩
      rw [if_neg hends] at hmax
      rw [longest, if_neg hends] at hfits
      have hle := length_le_longest (edit line key) keys
      apply hecho2 base v (fun key' hk => hcr key' (List.mem_cons_of_mem key hk)) _ (by omega)
      exact hecho1 base v (hcr key List.mem_cons_self) he (by omega)

/-! ## A command -/

/-- Before a command is read. -/
structure AtPrompt (s : State) : Prop where
  size : s.command.length = commandSize
  ready : Ready s.screen
  column : pos s.screen % maxX = 0

/-- The prompt is shown before the first key. -/
lemma AtPrompt.prompts (h : AtPrompt s) : ∃ t, writeString promptText s.screen = some t ∧
    Editing { s with screen := t, commandLength := 0 } [] ∧
    Echoed (pos s.screen) (background s.screen) [] t := by
  obtain ⟨t1, hwrite, ht1, hpos1, hvideo1⟩ := writeChar_background h.ready 0x3E
  obtain ⟨t2, hrun2, hw⟩ := textModeChar_plain ht1.inRange (c := 0x3E) (by decide)
  have hlt := h.ready.inRange.pos_lt
  have hcol := h.column
  have hnext : (pos t1 + 1) % (maxX * maxY) = pos s.screen + 1 := by
    simp only [maxX, maxY] at *
    omega
  have hvideo : t2.video
      = Function.update (background s.screen) (pos s.screen) ⟨0x3E, textColor⟩ := by
    rw [hw.video, ht1.color, hvideo1, hpos1]
    rfl
  refine ⟨t2, ?_, ⟨h.size, rfl, by decide, rfl, ht1.wrote hw⟩, ⟨?_, ?_, ?_, ?_⟩, ?_⟩
  · change (writeChar 0x3E s.screen >>= some) = _
    rw [hwrite, hrun2]
    rfl
  · rw [hvideo, Function.update_self]
  · intro k hk
    exact absurd hk (Nat.not_lt_zero k)
  · intro i hi
    rw [hvideo, Function.update_of_ne (by omega)]
  · intro i hi
    left
    rw [hvideo, Function.update_of_ne (by rw [List.length_nil] at hi; omega)]
  · rw [hw.pos_eq, hnext]
    rfl

/-- The array is closed with a NUL. -/
lemma Editing.ends (h : Editing s line) (hline : ∀ c ∈ line, c ≠ 0) :
    ∃ s', endCommand s = some s' ∧ AtPrompt s' ∧ (0 : Byte) ∈ s'.command ∧
      cstring s'.command = line ∧
      ∀ base v, Echoed base v line s.screen → Shown base v line s'.screen := by
  have hlt : line.length < s.command.length := by
    rw [h.size]
    exact h.fits
  have hgt : s.commandLength.toNat < s.command.length := by
    rw [h.length]
    exact hlt
  obtain ⟨t1, hwrite, ht1, hpos1, hvideo1⟩ := writeChar_background h.ready newlineKey
  obtain ⟨t2, hrun2, hw⟩ := textModeChar_newline ht1.inRange
  have hset : s.command.set s.commandLength.toNat 0
      = line ++ 0 :: s.command.drop (line.length + 1) := by
    rw [h.length, List.set_eq_take_append_cons_drop, if_pos hlt, h.stored]
  refine ⟨{ s with command := s.command.set s.commandLength.toNat 0, screen := t2 }, ?_, ?_, ?_, ?_,
    ?_⟩
  · rw [endCommand, setCommand, if_pos hgt]
    change (writeChar newlineKey s.screen >>= some >>= _) = _
    rw [hwrite]
    change (textModeChar 0x0A t1 >>= some >>= _) = _
    rw [hrun2]
    rfl
  · refine ⟨?_, ht1.wrote hw, ?_⟩
    · rw [List.length_set]
      exact h.size
    · rw [hw.pos_eq]
      exact Nat.mul_mod_left _ _
  · rw [hset]
    exact List.mem_append_right line List.mem_cons_self
  · rw [hset]
    exact cstring_append hline _
  · intro base v he
    have hvideo : t2.video = s.screen.video := by
      rw [hw.video, ← he.background_eq]
      exact hvideo1
    refine ⟨?_, ?_, ?_, ?_⟩
    · exact hvideo ▸ he.prompt
    · exact hvideo ▸ he.cells
    · exact hvideo ▸ he.before
    · exact hvideo ▸ he.after

/-- No string of the keyboard's characters holds a NUL. -/
lemma FromKeyboard.ne_cr (h : FromKeyboard key) : key ≠ 0x0D := by
  obtain ⟨-, shiftdown, code, rfl⟩ := h
  rw [Keyboard.scanCodeTable]
  have htable : ∀ table : List Byte, (0x0D : Byte) ∉ table → ∀ n, table.getD n 0 ≠ 0x0D := by
    intro table hno n heq
    rw [List.getD_eq_getElem?_getD] at heq
    by_cases hn : n < table.length
    · rw [List.getElem?_eq_getElem hn] at heq
      exact hno (heq ▸ List.getElem_mem hn)
    · rw [List.getElem?_eq_none (not_lt.mp hn)] at heq
      cases heq
  split
  · exact htable _ (by decide) _
  · exact htable _ (by decide) _

/-- What `check_command` does with the string in the array. -/
lemma checkCommand_spec (h : AtPrompt s) (hnul : (0 : Byte) ∈ s.command) :
    ∃ r s', checkCommand s = some (r, s') ∧ AtPrompt s' ∧
      (r = .help ↔ cstring s.command = helpText) ∧
      (r = .tetris ↔ cstring s.command = tetrisText) := by
  have hhelp : streq (helpText ++ [0]) s.command
      = some (decide (helpText = cstring s.command)) := streq_spec (by decide) hnul
  have htetris : streq (tetrisText ++ [0]) s.command
      = some (decide (tetrisText = cstring s.command)) := streq_spec (by decide) hnul
  have hne : helpText ≠ tetrisText := by decide
  by_cases h1 : helpText = cstring s.command
  · obtain ⟨t1, hrun1, ht1⟩ := writeString_ready h.ready commandsText
    obtain ⟨t2, hrun2, ht2⟩ := writeString_ready ht1 aboutHelpText
    obtain ⟨t3, hrun3, ht3, hcol⟩ := writeString_newline ht2 aboutTetrisText.dropLast
    have hrun3 : writeString aboutTetrisText t2 = some t3 := hrun3
    refine ⟨.help, { s with screen := t3 }, ?_, ⟨h.size, ht3, hcol⟩, ?_, ?_⟩
    · rw [decide_eq_true h1] at hhelp
      simp only [checkCommand, hhelp, hrun1, hrun2, hrun3, Option.bind_eq_bind, Option.bind_some,
        if_true]
    · simp [h1]
    · rw [← h1]
      simp [hne]
  by_cases h2 : tetrisText = cstring s.command
  · refine ⟨.tetris, s, ?_, h, ?_, ?_⟩
    · rw [decide_eq_false h1] at hhelp
      rw [decide_eq_true h2] at htetris
      simp only [checkCommand, hhelp, htetris, Option.bind_eq_bind, Option.bind_some,
        Bool.false_eq_true, if_true, if_false]
    · rw [← h2]
      simp [hne.symm]
    · simp [h2]
  · obtain ⟨t1, hrun1, ht1, hcol⟩ := writeString_newline h.ready unrecognizedText.dropLast
    have hrun1 : writeString unrecognizedText s.screen = some t1 := hrun1
    refine ⟨.unrecognized, { s with screen := t1 }, ?_, ⟨h.size, ht1, hcol⟩, ?_, ?_⟩
    · rw [decide_eq_false h1] at hhelp
      rw [decide_eq_false h2] at htetris
      simp only [checkCommand, hhelp, htetris, hrun1, Option.bind_eq_bind, Option.bind_some,
        Bool.false_eq_true, if_false]
    · simp [eq_comm, h1]
    · simp [eq_comm, h2]

/-! ## Sessions -/

/-- The index into `str` is one of its 44 bytes. -/
lemma fancyRound_ready (h : Ready s.screen) : ∃ s', fancyRound s = some s' ∧ Ready s'.screen ∧
    s'.command = s.command := by
  have hlen : (Tetris.random32 (Tetris.nextRandom s.next)).toNat % strSize < str.length :=
    Nat.mod_lt _ (by decide)
  have hset (c : Byte) :
      setVideo (s.screen.y.toNat * maxX + s.screen.x.toNat) c textColor s.screen
        = some { s.screen with
          video := Function.update s.screen.video (pos s.screen) ⟨c, textColor⟩ } :=
    if_pos h.inRange.pos_lt
  simp only [fancyRound, List.getElem?_eq_getElem hlen, hset, Option.bind_eq_bind,
    Option.bind_some]
  exact ⟨_, rfl, ⟨⟨h.inRange.x_lt, h.inRange.y_lt⟩, h.color⟩, rfl⟩

/-- A loop whose rounds leave the command alone. -/
lemma foldlM_ready {ι : Type} {f : State → ι → Option State}
    (hf : ∀ s i, Ready s.screen → ∃ s', f s i = some s' ∧ Ready s'.screen ∧ s'.command = s.command)
    (l : List ι) (h : Ready s.screen) :
    ∃ s', l.foldlM f s = some s' ∧ Ready s'.screen ∧ s'.command = s.command := by
  induction l generalizing s with
  | nil => exact ⟨s, rfl, h, rfl⟩
  | cons i l ih =>
    obtain ⟨s1, hrun1, h1, hc1⟩ := hf s i h
    obtain ⟨s2, hrun2, h2, hc2⟩ := ih h1
    refine ⟨s2, ?_, h2, hc2.trans hc1⟩
    rw [List.foldlM_cons, hrun1]
    exact hrun2

lemma fancyDisplayChar_ready (h : Ready s.screen) (c : Byte) :
    ∃ s', fancyDisplayChar c s = some s' ∧ Ready s'.screen ∧ s'.command = s.command := by
  by_cases hblank : c ≠ 0x20
  · obtain ⟨s1, hrun1, h1, hc1⟩ :=
      foldlM_ready (fun s (_ : ℕ) hs => fancyRound_ready hs) (List.range 10) h
    obtain ⟨t2, hrun2, h2⟩ := textModeChar_ready h1 c
    refine ⟨{ s1 with screen := t2 }, ?_, h2, hc1⟩
    rw [fancyDisplayChar, if_pos hblank, hrun1]
    simp only [hrun2, Option.bind_eq_bind, Option.bind_some]
  · obtain ⟨t2, hrun2, h2⟩ := textModeChar_ready h c
    refine ⟨{ s with screen := t2 }, ?_, h2, rfl⟩
    rw [fancyDisplayChar, if_neg hblank]
    simp only [hrun2, Option.bind_eq_bind, Option.bind_some]

lemma displayBanner_ready (h : Ready s.screen) :
    ∃ s', displayBanner s = some s' ∧ Ready s'.screen ∧ s'.command = s.command :=
  foldlM_ready (fun _ c hs => fancyDisplayChar_ready hs c) welcomeText h

/-- The shell starts, with its banner on the first line. -/
lemma exists_start (video : ℕ → VideoCell) :
    ∃ s, startShell (loaded video) = some s ∧ AtPrompt s ∧ pos s.screen = maxX := by
  have hkeep : ∀ (s : Screen) (_ : ℕ → VideoCell), s.x = 0 ∧ s.y = 0 ∧ s.color = textColor →
      s.x = 0 ∧ s.y = 0 ∧ s.color = textColor := fun _ _ hs => hs
  obtain ⟨t, hrun, ⟨hx, hy, hcolor⟩, -⟩ :=
    draws_clearScreen hkeep (textSetPos 0 0 (loaded video).screen) ⟨rfl, rfl, rfl⟩
  have hready : Ready t := by
    refine ⟨⟨?_, ?_⟩, hcolor⟩
    · rw [hx]
      decide
    · rw [hy]
      decide
  have hsize : (loaded video).command.length = commandSize := List.length_replicate
  rw [startShell, hrun]
  simp only [Option.bind_eq_bind, Option.bind_some]
  generalize loaded video = s0 at hsize
  obtain ⟨s1, hrun1, h1, hc1⟩ := displayBanner_ready (s := { s0 with screen := t }) hready
  rw [hrun1]
  have hcell : pos (textSetPos 0 1 s1.screen) = maxX := rfl
  refine ⟨_, rfl, ⟨?_, ⟨⟨?_, ?_⟩, h1.color⟩, ?_⟩, hcell⟩
  · exact (congrArg List.length hc1).trans hsize
  · exact (by decide : 0 < maxX)
  · exact (by decide : 1 < maxY)
  · change pos (textSetPos 0 1 s1.screen) % maxX = 0
    rw [hcell, Nat.mod_self]

lemma AtPrompt.reads {rest : List Byte} (h : AtPrompt s)
    (hkeys : ∀ key ∈ keys, FromKeyboard key) (hline : lineOf [] keys = some (line, rest)) :
    ∃ s', readCommand keys s = some (.line rest, s') ∧ AtPrompt s' ∧ (0 : Byte) ∈ s'.command ∧
      cstring s'.command = line ∧
      (pos s.screen + 1 + longest [] keys < maxX * maxY →
        Shown (pos s.screen) (background s.screen) line s'.screen) := by
  obtain ⟨t, hprompt, hedit, hecho⟩ := h.prompts
  obtain ⟨s1, hrun1, h1, hecho1⟩ := readLoop_reads hedit (by decide) hline
  have hnz : ∀ c ∈ line, c ≠ 0 := by
    intro c hc
    rcases mem_lineOf hline hc with hnil | hin
    · cases hnil
    · exact (hkeys c hin).1
  obtain ⟨s2, hrun2, h2, hnul, hstr, hshown⟩ := h1.ends hnz
  refine ⟨s2, ?_, h2, hnul, hstr, fun hfits => ?_⟩
  · simp only [readCommand, hprompt, hrun1, hrun2, Option.bind_eq_bind, Option.bind_some]
  · exact hshown _ _ (hecho1 _ _ (fun key hk => (hkeys key hk).ne_cr) hecho hfits)

lemma AtPrompt.waits (h : AtPrompt s) (hkeys : ∀ key ∈ keys, FromKeyboard key)
    (hline : lineOf [] keys = none) : ∃ s', readCommand keys s = some (.waiting, s') ∧
      (pos s.screen + 1 + longest [] keys < maxX * maxY →
        Echoed (pos s.screen) (background s.screen) (edited keys) s'.screen) := by
  obtain ⟨t, hprompt, hedit, hecho⟩ := h.prompts
  obtain ⟨s1, hrun1, hecho1⟩ := readLoop_waits hedit (by decide) hline
  refine ⟨s1, ?_, fun hfits => ?_⟩
  · simp only [readCommand, hprompt, hrun1, Option.bind_eq_bind, Option.bind_some]
  · exact hecho1 _ _ (fun key hk => (hkeys key hk).ne_cr) hecho hfits

/-- A line that is read has been typed. -/
lemma AtPrompt.line_of_read {rest : List Byte} (h : AtPrompt s)
    (hkeys : ∀ key ∈ keys, FromKeyboard key) (hrun : readCommand keys s = some (.line rest, s')) :
    AtPrompt s' ∧ (0 : Byte) ∈ s'.command := by
  cases hline : lineOf [] keys with
  | none =>
    obtain ⟨s1, hwait, -⟩ := h.waits hkeys hline
    rw [hrun] at hwait
    cases hwait
  | some r =>
    obtain ⟨line, rest'⟩ := r
    obtain ⟨s1, hread, h1, hnul, -⟩ := h.reads hkeys hline
    rw [hrun] at hread
    cases hread
    exact ⟨h1, hnul⟩

lemma Session.atPrompt (h : Session s) : AtPrompt s := by
  induction h with
  | @start video s hstart =>
    obtain ⟨s', hrun, hs', -⟩ := exists_start video
    rw [hstart] at hrun
    cases hrun
    exact hs'
  | command _ hkeys hread hcheck _ ih =>
    obtain ⟨h1, hnul⟩ := ih.line_of_read hkeys hread
    obtain ⟨r, s', hrun, h', -⟩ := checkCommand_spec h1 hnul
    rw [hcheck] at hrun
    cases hrun
    exact h'
  | @game s s1 s2 s3 keys rest p pieces lines _ hkeys hread hcheck _ _ hafter ih =>
    obtain ⟨h1, hnul⟩ := ih.line_of_read hkeys hread
    obtain ⟨r, s', hrun, h', -⟩ := checkCommand_spec h1 hnul
    rw [hcheck] at hrun
    cases hrun
    obtain ⟨t, hclear, -⟩ := draws_clearScreen (P := fun _ => True) (fun _ _ _ => trivial)
      p.screen trivial
    rw [afterTetris, hclear] at hafter
    cases hafter
    exact ⟨h'.size, ⟨⟨(by decide : 0 < maxX), (by decide : 0 < maxY)⟩, rfl⟩, rfl⟩

/-- The shell reads what was typed, with the erased characters taken out: the line that the screen
shows is the string that it compares with its commands. Nothing is written outside the array or the
video memory, whatever is typed. -/
theorem session_reads (h : Session s) (hkeys : ∀ key ∈ keys, FromKeyboard key) :
    (lineOf [] keys = none → ∃ s', readCommand keys s = some (.waiting, s') ∧
      (pos s.screen + 1 + longest [] keys < maxX * maxY →
        Echoed (pos s.screen) (background s.screen) (edited keys) s'.screen)) ∧
    ∀ line rest, lineOf [] keys = some (line, rest) → ∃ s' r s'',
      readCommand keys s = some (.line rest, s') ∧ checkCommand s' = some (r, s'') ∧
      cstring s'.command = line ∧ (r = .help ↔ line = helpText) ∧
      (r = .tetris ↔ line = tetrisText) ∧
      (pos s.screen + 1 + longest [] keys < maxX * maxY →
        Shown (pos s.screen) (background s.screen) line s'.screen) := by
  have hprompt := h.atPrompt
  refine ⟨fun hline => hprompt.waits hkeys hline, fun line rest hline => ?_⟩
  obtain ⟨s1, hread, h1, hnul, hstr, hshown⟩ := hprompt.reads hkeys hline
  obtain ⟨r, s2, hcheck, -, hhelp, htetris⟩ := checkCommand_spec h1 hnul
  rw [hstr] at hhelp htetris
  exact ⟨s1, r, s2, hread, hcheck, hstr, hhelp, htetris, hshown⟩

/-- `hxelqp` with `x` and `q` erased, and the newline. -/
def helpKeys : List Byte := [0x68, 0x78, 0x08, 0x65, 0x6C, 0x71, 0x08, 0x70, 0x0A]

lemma helpKeys_fromKeyboard : ∀ key ∈ helpKeys, FromKeyboard key := by
  unfold helpKeys
  simp only [List.forall_mem_cons]
  refine ⟨⟨by decide, 0, 0x23, rfl⟩, ⟨by decide, 0, 0x2D, rfl⟩, ⟨by decide, 0, 0x0E, rfl⟩,
    ⟨by decide, 0, 0x12, rfl⟩, ⟨by decide, 0, 0x26, rfl⟩, ⟨by decide, 0, 0x10, rfl⟩,
    ⟨by decide, 0, 0x0E, rfl⟩, ⟨by decide, 0, 0x19, rfl⟩, ⟨by decide, 0, 0x1C, rfl⟩, ?_⟩
  intro key hkey
  cases hkey

/-- The line is corrected, shown and run. -/
theorem session_reads_help : ∃ s s' s'', Session s ∧
    readCommand helpKeys s = some (.line [], s') ∧ checkCommand s' = some (.help, s'') ∧
    cstring s'.command = helpText ∧ Shown maxX (background s.screen) helpText s'.screen := by
  obtain ⟨s, hstart, -, hpos⟩ := exists_start fun _ => cleared
  have hs : Session s := .start hstart
  have hroom : pos s.screen + 1 + longest [] helpKeys < maxX * maxY := by
    rw [hpos]
    decide
  obtain ⟨s1, r, s2, hread, hcheck, hline, hhelp, -, hshown⟩ :=
    (session_reads hs helpKeys_fromKeyboard).2 helpText [] rfl
  obtain rfl : r = .help := hhelp.mpr rfl
  exact ⟨s, s1, s2, hs, hread, hcheck, hline, hpos ▸ hshown hroom⟩

end Bikeshed.Shell
