import Dimensional.Expression.Token
import Mathlib.Data.List.Basic
import Mathlib.Data.List.TakeWhile

/-!
# Scanning run by run

What the scanner takes from a position on is a character and those behind it that it goes on with (`IsLongestRun`), so
texts are taken apart run by run (`runInduction`). A text can be scanned in parts: where no run crosses the place
between two of them, the tokens of the whole are those of the parts (`scanFrom_append`). Names give themselves, and digit
runs give their decimal value up to `greatestNatural`, in either script.
-/

namespace Dimensional

variable {a b cs ds rest : List Char} {c d : Char} {k : CharClass}

/-! ### Classes of characters -/

/-- A character that names are written with: no digit of either script, no symbol and no blank. -/
structure IsNameChar (c : Char) : Prop where
  not_digit : c.isDigit = false
  not_superscript : Superscript.digit? c = none
  not_symbol : c ∉ ['-', '^', '*', '/', Superscript.minus]
  not_blank : isBlank c = false

theorem ofSymbol?_eq_none_iff : Lexeme.ofSymbol? c = none ↔ c ∉ ['-', '^', '*', '/', Superscript.minus] := by
  constructor
  · intro h hc
    simp only [List.mem_cons, List.not_mem_nil, or_false] at hc
    rcases hc with rfl | rfl | rfl | rfl | rfl <;> cases h
  · intro h
    unfold Lexeme.ofSymbol?
    split <;> first | rfl | exact absurd (by decide) h

theorem classOf_digit (h : c.isDigit = true) : CharClass.of c = .digit := by
  simp [CharClass.of, h]

theorem classOf_superscript (h : (Superscript.digit? c).isSome = true) : CharClass.of c = .superscriptDigit := by
  unfold Superscript.digit? at h
  split at h <;> first | decide | cases h

theorem classOf_symbol {l : Lexeme} (h : Lexeme.ofSymbol? c = some l) : CharClass.of c = .symbol := by
  unfold Lexeme.ofSymbol? at h
  split at h <;> cases h <;> decide

theorem exists_digitChar (h : c.isDigit = true) : ∃ d < 10, c = d.digitChar := by
  simp only [Char.isDigit, Bool.and_eq_true, decide_eq_true_eq] at h
  have hlo : 48 ≤ c.toNat := h.1
  have hhi : c.toNat ≤ 57 := h.2
  refine ⟨c.toNat - 48, by omega, ?_⟩
  rw [← Char.toNat_inj, Nat.toNat_digitChar_of_lt_ten (by omega)]
  omega

theorem classOf_blank (h : isBlank c = true) : CharClass.of c = .blank := by
  -- the other classes are tried first, but no character of theirs is a blank
  have hdigit : c.isDigit = false := by
    rw [Bool.eq_false_iff]
    intro hd
    obtain ⟨d, hd, rfl⟩ := exists_digitChar hd
    revert d
    decide
  have hraised : Superscript.digit? c = none := by
    unfold Superscript.digit?
    split <;> first | rfl | exact absurd h (by decide)
  have hsymbol : Lexeme.ofSymbol? c = none := by
    unfold Lexeme.ofSymbol?
    split <;> first | rfl | exact absurd h (by decide)
  simp [CharClass.of, hdigit, hraised, hsymbol, h]

def CharClass.Holds : CharClass → Char → Prop
  | .digit, c => c.isDigit = true
  | .superscriptDigit, c => (Superscript.digit? c).isSome = true
  | .symbol, c => ∃ l, Lexeme.ofSymbol? c = some l
  | .blank, c => isBlank c = true
  | .identifier, c => IsNameChar c

theorem holds_classOf (c : Char) : (CharClass.of c).Holds c := by
  unfold CharClass.of
  split; · assumption
  split; · assumption
  split; · exact Option.isSome_iff_exists.mp ‹_›
  split; · assumption
  next hd hs hsym hb =>
    have hnone : Lexeme.ofSymbol? c = none := by simpa using hsym
    exact ⟨by simpa using hd, by simpa using hs, ofSymbol?_eq_none_iff.mp hnone, by simpa using hb⟩

/-- **The classes are told apart by what their characters are.** -/
theorem classOf_eq_iff : CharClass.of c = k ↔ k.Holds c := by
  constructor
  · rintro rfl
    exact holds_classOf c
  · intro h
    cases k with
    | digit => exact classOf_digit h
    | superscriptDigit => exact classOf_superscript h
    | symbol =>
      obtain ⟨l, hl⟩ := h
      exact classOf_symbol hl
    | blank => exact classOf_blank h
    | identifier =>
      obtain ⟨hd, hs, hsym, hb⟩ := h
      simp [CharClass.of, hd, hs, ofSymbol?_eq_none_iff.mpr hsym, hb]

/-! ### Runs -/

/-- The tests that end runs ask for another class; symbols and blanks are not gone on with. -/
theorem continuesRun_iff :
    continuesRun c d = true ↔ CharClass.of d = CharClass.of c ∧ CharClass.of c ≠ .symbol ∧ CharClass.of c ≠ .blank := by
  unfold continuesRun
  split
  · next h => simp [h]
  · next h =>
    have hd : CharClass.of d = .superscriptDigit ↔ (Superscript.digit? d).isSome = true := classOf_eq_iff
    simp [h, hd]
  · next h => simp [h]
  · next h => simp [h]
  · next h => simp [h]

theorem continuesRun_congr (h : CharClass.of c = CharClass.of d) (e : Char) : continuesRun c e = continuesRun d e := by
  rw [Bool.eq_iff_iff, continuesRun_iff, continuesRun_iff, h]

theorem continuesRun_of_ne (h : CharClass.of c ≠ CharClass.of d) : continuesRun c d = false := by
  rw [Bool.eq_false_iff]
  exact fun hc => h (continuesRun_iff.mp hc).1.symm

/-- A character `c` with what the scanner takes with it, in front of `rest`. -/
structure IsLongestRun (c : Char) (cs rest : List Char) : Prop where
  continues : ∀ d ∈ cs, continuesRun c d = true
  stops : ∀ d ∈ rest.head?, continuesRun c d = false

/-- Every text that is not empty begins with a longest run. -/
theorem exists_isLongestRun (c : Char) (chars : List Char) :
    ∃ cs rest, chars = cs ++ rest ∧ IsLongestRun c cs rest := by
  refine ⟨chars.takeWhile (continuesRun c), chars.dropWhile (continuesRun c), List.takeWhile_append_dropWhile.symm,
    fun d hd => List.mem_takeWhile_imp hd, fun d hd => ?_⟩
  have hhead := List.head?_dropWhile_not (continuesRun c) chars
  rw [Option.mem_def.mp hd] at hhead
  simpa using hhead

/-- Texts run by run. -/
theorem runInduction {motive : List Char → Prop} (nil : motive [])
    (run : ∀ c cs rest, IsLongestRun c cs rest → motive rest → motive (c :: cs ++ rest)) (chars : List Char) :
    motive chars := by
  induction hn : chars.length using Nat.strongRecOn generalizing chars with
  | _ n ih =>
    cases chars with
    | nil => exact nil
    | cons c chars =>
      obtain ⟨cs, rest, rfl, hrun⟩ := exists_isLongestRun c chars
      refine run c cs rest hrun (ih rest.length ?_ rest rfl)
      simp only [List.length_cons, List.length_append] at hn
      omega

theorem scan_eq_scanFrom (source : String) : scan source = scanFrom 0 source.toList := rfl

theorem scanFrom_nil (position : Nat) : scanFrom position [] = [] := by
  rw [scanFrom]

/-- **The scanner takes a longest run**, and gives one token for it at most. -/
theorem scanFrom_longest (h : IsLongestRun c cs rest) (position : Nat) :
    scanFrom position (c :: cs ++ rest) =
      (Lexeme.ofRun? (c :: cs)).toList.map (fun l => ⟨l, position, position + (c :: cs).length⟩) ++
        scanFrom (position + (c :: cs).length) rest := by
  have htake : (cs ++ rest).takeWhile (continuesRun c) = cs := by
    rw [List.takeWhile_append_of_pos h.continues]
    cases rest with
    | nil => simp
    | cons d rest => simp [h.stops d rfl]
  have hdrop : (cs ++ rest).dropWhile (continuesRun c) = rest := by
    rw [List.dropWhile_append_of_pos h.continues]
    cases rest with
    | nil => rfl
    | cons d rest => simp [h.stops d rfl]
  rw [List.cons_append, scanFrom, htake, hdrop]
  cases Lexeme.ofRun? (c :: cs) <;> rfl

/-! ### Parts of a text -/

/-- No run crosses the place between two parts of a text. -/
def Parted (a b : List Char) : Prop :=
  ∀ x ∈ a.getLast?, ∀ y ∈ b.head?, continuesRun x y = false

/-- A run at the end of a part is not gone on with in the next one. -/
theorem IsLongestRun.of_parted (h : IsLongestRun c cs []) (hb : Parted (c :: cs) b) : IsLongestRun c cs b := by
  refine ⟨h.continues, fun y hy => ?_⟩
  have hlast := hb _ (List.getLast?_eq_some_getLast (List.cons_ne_nil c cs)) y hy
  rcases List.mem_cons.mp (List.getLast_mem (List.cons_ne_nil c cs)) with heq | hmem
  · rwa [heq] at hlast
  · rwa [continuesRun_congr (continuesRun_iff.mp (h.continues _ hmem)).1] at hlast

/-- **The tokens of a text are those of its parts.** -/
theorem scanFrom_append (h : Parted a b) (position : Nat) :
    scanFrom position (a ++ b) = scanFrom position a ++ scanFrom (position + a.length) b := by
  induction a using runInduction generalizing position with
  | nil => simp [scanFrom_nil]
  | run c cs rest hrun ih =>
    have hboth : IsLongestRun c cs (rest ++ b) ∧ Parted rest b := by
      cases rest with
      | nil => exact ⟨hrun.of_parted (by simpa using h), fun x hx => absurd hx (Option.not_mem_none x)⟩
      | cons d rest =>
        refine ⟨⟨hrun.continues, hrun.stops⟩, fun x hx => h x ?_⟩
        rw [List.getLast?_append, Option.mem_def.mp hx]
        rfl
    rw [List.append_assoc, scanFrom_longest hboth.1, scanFrom_longest hrun, ih hboth.2, List.append_assoc,
      List.length_append, Nat.add_assoc]

theorem parted_of_classes (ha : ∀ x ∈ a, CharClass.of x = k) (hb : ∀ y ∈ b.head?, CharClass.of y ≠ k) :
    Parted a b := by
  intro x hx y hy
  have hxk : CharClass.of x = k := ha x (List.mem_of_getLast? hx)
  exact continuesRun_of_ne (hxk ▸ (hb y hy).symm)

def OpensGap (cs : List Char) : Prop := ∀ y ∈ cs.head?, CharClass.of y = .blank ∨ CharClass.of y = .symbol

theorem opensGap_blank (h : isBlank c = true) : OpensGap (c :: rest) := by
  intro y hy
  obtain rfl : c = y := Option.some.inj hy
  exact .inl (classOf_blank h)

theorem opensGap_symbol (h : CharClass.of c = .symbol) : OpensGap (c :: rest) := by
  intro y hy
  obtain rfl : c = y := Option.some.inj hy
  exact .inr h

/-- No run goes on into a gap. -/
theorem OpensGap.parted (hb : OpensGap b) (a : List Char) : Parted a b := by
  intro x _ y hy
  rw [Bool.eq_false_iff]
  intro hc
  obtain ⟨hclass, hsymbol, hblank⟩ := continuesRun_iff.mp hc
  rcases hb y hy with hy | hy
  · exact hblank (hclass ▸ hy)
  · exact hsymbol (hclass ▸ hy)

/-! ### Single runs -/

/-- Characters of one class, at least one. -/
structure IsRun (k : CharClass) (cs : List Char) : Prop where
  ne_nil : cs ≠ []
  classOf : ∀ c ∈ cs, CharClass.of c = k

theorem IsRun.parted (h : IsRun k a) (hb : ∀ y ∈ b.head?, CharClass.of y ≠ k) : Parted a b :=
  parted_of_classes h.classOf hb

/-- **A run gives one token at most.** -/
theorem scanFrom_run (h : IsRun k cs) (hsymbol : k ≠ .symbol) (hblank : k ≠ .blank) (position : Nat) :
    scanFrom position cs =
      (Lexeme.ofRun? cs).toList.map fun l => ⟨l, position, position + cs.length⟩ := by
  obtain ⟨c, cs, rfl⟩ := List.exists_cons_of_ne_nil h.ne_nil
  have hc : CharClass.of c = k := h.classOf c List.mem_cons_self
  have hrun : IsLongestRun c cs [] := by
    refine ⟨fun d hd => continuesRun_iff.mpr ?_, fun d hd => absurd hd (Option.not_mem_none d)⟩
    rw [hc, h.classOf d (List.mem_cons_of_mem c hd)]
    exact ⟨rfl, hsymbol, hblank⟩
  have hscan := scanFrom_longest hrun position
  rwa [List.append_nil, scanFrom_nil, List.append_nil] at hscan

/-! ### Blanks and symbols -/

theorem isLongestRun_alone (h : CharClass.of c = .blank ∨ CharClass.of c = .symbol) (rest : List Char) :
    IsLongestRun c [] rest := by
  refine ⟨fun d hd => absurd hd List.not_mem_nil, fun d _ => ?_⟩
  rcases h with h | h <;> simp [continuesRun, h]

theorem scanFrom_cons_blank (h : isBlank c = true) (rest : List Char) (position : Nat) :
    scanFrom position (c :: rest) = scanFrom (position + 1) rest := by
  have hclass := classOf_blank h
  have hnone : Lexeme.ofRun? [c] = none := by simp only [Lexeme.ofRun?, hclass]
  have hscan := scanFrom_longest (isLongestRun_alone (.inl hclass) rest) position
  rw [hnone] at hscan
  exact hscan

theorem ofRun?_symbol {l : Lexeme} (h : Lexeme.ofSymbol? c = some l) : Lexeme.ofRun? [c] = some l := by
  simp only [Lexeme.ofRun?, classOf_symbol h, h]

theorem scanFrom_cons_symbol {l : Lexeme} (h : Lexeme.ofSymbol? c = some l) (rest : List Char) (position : Nat) :
    scanFrom position (c :: rest) = ⟨l, position, position + 1⟩ :: scanFrom (position + 1) rest := by
  have hscan := scanFrom_longest (isLongestRun_alone (.inr (classOf_symbol h)) rest) position
  rw [ofRun?_symbol h] at hscan
  exact hscan

/-! ### Names -/

/-- A name that an expression can write. -/
structure IsName (name : String) : Prop where
  ne_empty : name ≠ ""
  chars : ∀ c ∈ name.toList, IsNameChar c

variable {name : String}

theorem IsName.isRun (h : IsName name) : IsRun .identifier name.toList := by
  refine ⟨fun hn => h.ne_empty (String.toList_eq_nil_iff.mp hn), fun c hc => ?_⟩
  exact classOf_eq_iff.mpr (h.chars c hc)

theorem IsName.of_all (hne : name ≠ "") (h : (name.toList.all fun c => CharClass.of c == .identifier) = true) :
    IsName name := by
  refine ⟨hne, fun c hc => ?_⟩
  have hclass := List.all_eq_true.mp h c hc
  exact classOf_eq_iff.mp (beq_iff_eq.mp hclass)

theorem ofRun?_name (h : IsRun .identifier cs) : Lexeme.ofRun? cs = some (.name (String.ofList cs)) := by
  obtain ⟨c, cs, rfl⟩ := List.exists_cons_of_ne_nil h.ne_nil
  simp only [Lexeme.ofRun?, h.classOf c List.mem_cons_self]

/-- **A name is scanned as itself.** -/
theorem scanFrom_name (h : IsName name) (position : Nat) :
    scanFrom position name.toList = [⟨.name name, position, position + name.length⟩] := by
  rw [scanFrom_run h.isRun (by decide) (by decide), ofRun?_name h.isRun, String.ofList_toList, String.length_toList]
  rfl

/-! ### Digit runs -/

/-- Some ASCII digits. -/
structure DigitRun where
  chars : List Char
  ne_nil : chars ≠ []
  digits : ∀ c ∈ chars, c.isDigit = true

namespace DigitRun

def value (d : DigitRun) : Nat := Nat.ofDigitChars 10 d.chars 0

/-- The digits of a number without leading zeros. -/
def ofNat (n : Nat) : DigitRun :=
  ⟨Nat.toDigits 10 n, Nat.toDigits_ne_nil, fun _ hc => Nat.isDigit_of_mem_toDigits (by decide) (by decide) hc⟩

theorem value_ofNat (n : Nat) : (ofNat n).value = n := Nat.ofDigitChars_ten_toDigits

end DigitRun

theorem digit?_raise (h : c.isDigit = true) : Superscript.digit? (Superscript.raise c) = some (digitValue c) := by
  obtain ⟨d, hd, rfl⟩ := exists_digitChar h
  rw [Superscript.digit?_raise_digitChar hd, digitValue, Nat.toNat_digitChar_of_lt_ten hd]
  simp

theorem classOf_raise (h : c.isDigit = true) : CharClass.of (Superscript.raise c) = .superscriptDigit := by
  rw [classOf_superscript]
  rw [digit?_raise h]
  rfl

/-- Stopping at the bound after each digit is stopping at it once. -/
theorem foldl_min_eq (bound value : Nat) (ns : List Nat) :
    ns.foldl (fun v d => min (10 * v + d) bound) (min value bound) =
      min (ns.foldl (fun v d => 10 * v + d) value) bound := by
  induction ns generalizing value with
  | nil => rfl
  | cons n ns ih =>
    have hstep : min (10 * min value bound + n) bound = min (10 * value + n) bound := by omega
    rw [List.foldl_cons, List.foldl_cons, hstep, ih]

theorem numeralValue_eq (d : DigitRun) : numeralValue (d.chars.map digitValue) = min d.value greatestNatural := by
  have h := foldl_min_eq greatestNatural 0 (d.chars.map digitValue)
  rw [Nat.zero_min] at h
  rw [numeralValue, h, List.foldl_map, DigitRun.value, Nat.ofDigitChars_eq_foldl]
  rfl

theorem isRun_digits (d : DigitRun) : IsRun .digit d.chars :=
  ⟨d.ne_nil, fun c hc => classOf_digit (d.digits c hc)⟩

theorem ofRun?_digits (d : DigitRun) : Lexeme.ofRun? d.chars = some (.natural (min d.value greatestNatural)) := by
  rw [← numeralValue_eq]
  obtain ⟨c, cs, hcs⟩ := List.exists_cons_of_ne_nil d.ne_nil
  have hc : CharClass.of c = .digit := (isRun_digits d).classOf c (by simp [hcs])
  simp only [hcs, Lexeme.ofRun?, hc]

/-- **A digit run is scanned as its value**, up to the greatest value. -/
theorem scanFrom_digits (d : DigitRun) (position : Nat) :
    scanFrom position d.chars =
      [⟨.natural (min d.value greatestNatural), position, position + d.chars.length⟩] := by
  rw [scanFrom_run (isRun_digits d) (by decide) (by decide), ofRun?_digits]
  rfl

theorem isRun_raised (d : DigitRun) : IsRun .superscriptDigit (d.chars.map Superscript.raise) := by
  refine ⟨fun h => d.ne_nil (List.map_eq_nil_iff.mp h), fun c hc => ?_⟩
  obtain ⟨a, ha, rfl⟩ := List.mem_map.mp hc
  exact classOf_raise (d.digits a ha)

theorem ofRun?_raised (d : DigitRun) :
    Lexeme.ofRun? (d.chars.map Superscript.raise) = some (.superscript (min d.value greatestNatural)) := by
  have hvalues : (d.chars.map Superscript.raise).filterMap Superscript.digit? = d.chars.map digitValue := by
    rw [List.filterMap_map, ← List.filterMap_eq_map]
    exact List.filterMap_congr fun c hc => digit?_raise (d.digits c hc)
  rw [← numeralValue_eq, ← hvalues]
  obtain ⟨c, cs, hcs⟩ := List.exists_cons_of_ne_nil (isRun_raised d).ne_nil
  have hc : CharClass.of c = .superscriptDigit := (isRun_raised d).classOf c (by simp [hcs])
  simp only [hcs, Lexeme.ofRun?, hc]

/-- **A superscript digit run is scanned as its value**, up to the greatest value. -/
theorem scanFrom_raised (d : DigitRun) (position : Nat) :
    scanFrom position (d.chars.map Superscript.raise) =
      [⟨.superscript (min d.value greatestNatural), position, position + d.chars.length⟩] := by
  rw [scanFrom_run (isRun_raised d) (by decide) (by decide), ofRun?_raised, List.length_map]
  rfl

end Dimensional
