import Dimensional.Proofs.Json.Decoding
import Dimensional.Proofs.Text.Digits
import Mathlib.Data.List.Basic

/-!
# Compact texts are read as the values they were written for

A value is read from its compact text whatever follows, as long as that cannot be taken for more of a number
(`Reads`). A character of the text takes at most one step, so the steps that are allowed are enough.

The main statement is `isTextOf_compact`, for values without real numbers that are not nested too deeply (`Plain`).
-/

namespace Dimensional
namespace Json

/-! ### What can follow a value -/

/-- The end of a text, or what stands behind a value in a list or an object. -/
def Ends (rest : List Glyph) : Prop :=
  rest = [] ∨ ∃ c more, rest = .char c :: more ∧ (c = ',' ∨ c = ']' ∨ c = '\x7d')

/-- A value is read from its compact text, and has itself as its value. -/
structure Reads (nesting : Nat) (j : Json) : Prop where
  starts : ∃ g gs, Glyph.ofText j.compact = g :: gs ∧ Document.isSpace g = false ∧ g ≠ .char ']'
  reads : ∀ steps rest, (Glyph.ofText j.compact).length ≤ steps → Ends rest →
    ∃ d, Document.readValue steps (Glyph.ofText j.compact ++ rest) = (d, some rest) ∧ d.settle nesting = .ok j

/-! ### Strings -/

theorem hexEscape?_twoHexDigits :
    ∀ n < 32, Document.hexEscape? (('0' :: '0' :: twoHexDigits n).map .char) = some n := by
  decide

theorem readPieces_cons (read : List Piece) (rest : List Glyph) {c : Char} (hquote : c ≠ '"') (hslash : c ≠ '\\')
    (hc : ¬ c.toNat < 0x20) :
    Document.readPieces read (.char c :: rest) = Document.readPieces (.char c :: read) rest := by
  conv_lhs => unfold Document.readPieces
  split
  case h_1 heq => cases heq
  case h_2 heq => exact absurd (Glyph.char.inj (List.cons.inj heq).1) hquote
  case h_3 heq => exact absurd (Glyph.char.inj (List.cons.inj heq).1) hslash
  case h_4 heq => exact absurd (Glyph.char.inj (List.cons.inj heq).1) hslash
  case h_5 heq => exact absurd (Glyph.char.inj (List.cons.inj heq).1) hslash
  case h_6 heq =>
    cases heq
    rw [if_neg hc]
  case h_7 heq => cases heq

/-- A character is read as itself, or as an escape of its code if that is below 32. -/
theorem exists_piece (c : Char) : ∃ p, (p = .char c ∨ p = .unit c.toNat ∧ c.toNat < 0x20) ∧
    ∀ read rest, Document.readPieces read ((stringChar c).map .char ++ rest) = Document.readPieces (p :: read) rest := by
  unfold stringChar
  split
  any_goals exact ⟨_, .inl rfl, fun _ _ => rfl⟩
  next hquote hslash _ _ _ _ _ =>
  by_cases hc : c.toNat < 0x20
  · have hhex := hexEscape?_twoHexDigits c.toNat hc
    refine ⟨_, .inr ⟨rfl, hc⟩, fun read rest => ?_⟩
    simp only [twoHexDigits, List.map_cons, List.map_nil] at hhex
    simp [hc, twoHexDigits, Document.readPieces, hhex]
  · refine ⟨_, .inl rfl, fun read rest => ?_⟩
    rw [if_neg hc, List.map_singleton, List.singleton_append, readPieces_cons read rest hquote hslash hc]

/-- The characters of a string are read up to the closing quote, and decode to themselves. -/
theorem exists_pieces (cs : List Char) : ∃ pieces,
    (∀ read rest, Document.readPieces read ((cs.flatMap stringChar).map .char ++ .char '"' :: rest) =
      (⟨read.reverse ++ pieces, .quote⟩, some rest)) ∧
    ∀ decoded, StringText.decodePieces .quote decoded pieces = .ok (String.ofList (decoded.reverse ++ cs)) := by
  induction cs with
  | nil =>
    refine ⟨[], fun read rest => ?_, fun decoded => ?_⟩
    · simp [Document.readPieces]
    · simp [StringText.decodePieces, StringEnd.fault?]
  | cons c cs ih =>
    obtain ⟨pieces, hread, hdecode⟩ := ih
    obtain ⟨p, hp, hpiece⟩ := exists_piece c
    refine ⟨p :: pieces, fun read rest => ?_, fun decoded => ?_⟩
    · rw [List.flatMap_cons, List.map_append, List.append_assoc, hpiece, hread]
      simp
    · have hrest := hdecode (c :: decoded)
      rw [List.reverse_cons, List.append_assoc, List.singleton_append] at hrest
      rcases hp with rfl | ⟨rfl, hc⟩
      · exact hrest
      · rw [StringText.decodePieces.eq_def]
        simp only
        rw [if_neg (by omega), if_neg (by omega), Char.ofNat_toNat]
        exact hrest

theorem ofText_quote (text : String) : Glyph.ofText (quote text) =
    .char '"' :: ((text.toList.flatMap stringChar).map .char ++ [.char '"']) := by
  rw [Glyph.ofText, quote, String.toList_ofList, List.map_append, List.map_cons]
  rfl

/-- A string is read behind its opening quote. -/
theorem exists_stringText (text : String) : ∃ t : StringText,
    (∀ rest, Document.readPieces [] ((text.toList.flatMap stringChar).map .char ++ .char '"' :: rest) = (t, some rest)) ∧
      t.decode = .ok text := by
  obtain ⟨pieces, hread, hdecode⟩ := exists_pieces text.toList
  refine ⟨⟨pieces, .quote⟩, fun rest => hread [] rest, ?_⟩
  have h := hdecode []
  rwa [List.reverse_nil, List.nil_append, String.ofList_toList] at h

theorem reads_string (nesting : Nat) (text : String) : Reads nesting (.string text) := by
  refine ⟨⟨.char '"', _, ofText_quote text, rfl, by decide⟩, fun steps rest hsteps _ => ?_⟩
  obtain ⟨t, hread, hdecode⟩ := exists_stringText text
  refine ⟨.string t, ?_, Document.settle_eq_string_iff.mpr ⟨t, rfl, hdecode⟩⟩
  rw [compact, ofText_quote] at hsteps ⊢
  obtain ⟨steps, rfl⟩ := Nat.exists_eq_add_of_le' (Nat.le_trans (by simp) hsteps : 1 ≤ steps)
  rw [List.cons_append, List.append_assoc, List.singleton_append]
  simp [Document.readValue, Document.skipSpace, Document.isSpace, hread]

/-! ### Words and numbers -/

theorem reads_null (nesting : Nat) : Reads nesting .null := by
  refine ⟨⟨.char 'n', _, rfl, rfl, by decide⟩, fun steps rest hsteps _ => ?_⟩
  obtain ⟨steps, rfl⟩ := Nat.exists_eq_add_of_le' (Nat.le_trans (by decide) hsteps : 1 ≤ steps)
  exact ⟨.null, rfl, rfl⟩

theorem reads_bool (nesting : Nat) (b : Bool) : Reads nesting (.bool b) := by
  refine ⟨by cases b <;> exact ⟨_, _, rfl, rfl, by decide⟩, fun steps rest hsteps _ => ?_⟩
  obtain ⟨steps, rfl⟩ := Nat.exists_eq_add_of_le' (Nat.le_trans (by cases b <;> decide) hsteps : 1 ≤ steps)
  cases b <;> exact ⟨_, rfl, rfl⟩

variable {rest : List Glyph} {n : Int} {nesting : Nat}

theorem Ends.takeWhile_isDigit (h : Ends rest) : rest.takeWhile Document.isDigit = [] := by
  rcases h with rfl | ⟨c, more, rfl, rfl | rfl | rfl⟩ <;> rfl

theorem Ends.dropWhile_isDigit (h : Ends rest) : rest.dropWhile Document.isDigit = rest := by
  rcases h with rfl | ⟨c, more, rfl, rfl | rfl | rfl⟩ <;> rfl

theorem Ends.readFraction (h : Ends rest) : Document.readFraction rest = .ok ([], rest) := by
  rcases h with rfl | ⟨c, more, rfl, rfl | rfl | rfl⟩ <;> rfl

theorem Ends.readExponent (h : Ends rest) : Document.readExponent rest = .ok (none, rest) := by
  rcases h with rfl | ⟨c, more, rfl, rfl | rfl | rfl⟩ <;> rfl

def digits (k : Nat) : List Glyph := (Nat.toDigits 10 k).map .char

theorem isDigit_of_mem_digits {k : Nat} : ∀ g ∈ digits k, Document.isDigit g = true := by
  refine List.forall_mem_map.mpr fun c hc => ?_
  exact Nat.isDigit_of_mem_toDigits (by decide) (by decide) hc

theorem exists_digits_eq_cons (k : Nat) : ∃ c gs, digits k = .char c :: gs ∧ c.isDigit = true := by
  obtain ⟨c, cs, h⟩ := List.exists_cons_of_ne_nil (Nat.toDigits_ne_nil (b := 10) (n := k))
  have hdigits : digits k = .char c :: cs.map .char := by rw [digits, h, List.map_cons]
  exact ⟨c, _, hdigits, isDigit_of_mem_digits (k := k) (.char c) (by simp [hdigits])⟩

theorem readWhole_digits (k : Nat) (h : Ends rest) :
    Document.readWhole (digits k ++ rest) = .ok ((digits k).map Document.digit, rest) := by
  have hempty : digits k ≠ [] := by
    obtain ⟨c, gs, hdigits, -⟩ := exists_digits_eq_cons k
    rw [hdigits]
    exact List.cons_ne_nil _ _
  have hzero : ∀ g more, digits k ≠ .char '0' :: g :: more := by
    intro g more heq
    have hhead : (Nat.toDigits 10 k).head? = some '0' := by
      have hmap := congrArg List.head? heq
      rw [digits, List.head?_map] at hmap
      obtain ⟨c, hc, hchar⟩ := Option.map_eq_some_iff.mp hmap
      rw [hc, Glyph.char.inj hchar]
    have hk : k = 0 := head?_toDigits hhead
    rw [hk] at heq
    cases heq
  rw [Document.readWhole, List.takeWhile_append_of_pos isDigit_of_mem_digits,
    List.dropWhile_append_of_pos isDigit_of_mem_digits, h.takeWhile_isDigit, h.dropWhile_isDigit, List.append_nil]
  split
  case h_1 heq => exact absurd heq hempty
  case h_2 heq => exact absurd heq (hzero _ _)
  case h_3 => rfl

theorem ofText_toString (n : Int) :
    Glyph.ofText (toString n) = (if n < 0 then [.char '-'] else []) ++ digits n.natAbs := by
  rw [Glyph.ofText, toList_toString, List.map_append, ← digits]
  split <;> rfl

theorem readNumber_toString (n : Int) (h : Ends rest) :
    Document.readNumber (Glyph.ofText (toString n) ++ rest) =
      .ok (⟨n < 0, (digits n.natAbs).map Document.digit, [], none⟩, rest) := by
  rw [ofText_toString]
  by_cases hn : n < 0
  · rw [if_pos hn, List.append_assoc, List.singleton_append, Document.readNumber]
    simp [readWhole_digits _ h, h.readFraction, h.readExponent, hn, bind, Except.bind, pure, Except.pure]
  · rw [if_neg hn, List.nil_append, Document.readNumber]
    · simp [readWhole_digits _ h, h.readFraction, h.readExponent, hn, bind, Except.bind, pure, Except.pure]
    · intro more heq
      obtain ⟨c, gs, hdigits, hc⟩ := exists_digits_eq_cons n.natAbs
      rw [hdigits] at heq
      obtain rfl : c = '-' := Glyph.char.inj (List.cons.inj heq).1
      cases hc

theorem natural_digits (k : Nat) : NumberText.natural ((digits k).map Document.digit) = k := by
  rw [NumberText.natural, digits, List.map_map, List.foldl_map]
  exact Nat.ofDigitChars_ten_toDigits

/-- An integer of 64 bits, with or without a sign. -/
def IsWord (n : Int) : Prop := -9223372036854775808 ≤ n ∧ n ≤ greatestUnsigned

theorem value_digits (h : IsWord n) :
    NumberText.value ⟨n < 0, (digits n.natAbs).map Document.digit, [], none⟩ = .ok (.integer n) := by
  obtain ⟨hlower, hupper⟩ := h
  rw [greatestUnsigned] at hupper
  by_cases hn : n < 0
  · have hrange : 0 < n.natAbs ∧ n.natAbs ≤ 9223372036854775808 := by omega
    have hvalue : -(n.natAbs : Int) = n := by omega
    conv_rhs => rw [← hvalue]
    simp [NumberText.value, natural_digits, hn, hrange]
  · have hrange : n.natAbs ≤ greatestUnsigned := by
      rw [greatestUnsigned]
      omega
    have hvalue : (n.natAbs : Int) = n := by omega
    conv_rhs => rw [← hvalue]
    simp [NumberText.value, natural_digits, hn, hrange]

/-- A sign or a digit. -/
def StartsNumber (c : Char) : Prop := c = '-' ∨ c.isDigit = true

theorem StartsNumber.isSpace_eq_false {c : Char} (hc : StartsNumber c) : Document.isSpace (.char c) = false := by
  cases hb : Document.isSpace (.char c) with
  | false => rfl
  | true =>
    rw [Document.isSpace] at hb
    simp only [Bool.or_eq_true, beq_iff_eq] at hb
    rcases hb with ((rfl | rfl) | rfl) | rfl <;> simp [StartsNumber] at hc

theorem skipSpace_cons {g : Glyph} (hg : Document.isSpace g = false) (rest : List Glyph) :
    Document.skipSpace (g :: rest) = g :: rest :=
  List.dropWhile_cons_of_neg (by simp [hg])

theorem comma_not_space : Document.isSpace (.char ',') = false := rfl

theorem bracket_not_space : Document.isSpace (.char ']') = false := rfl

theorem readValue_number {c : Char} (hc : StartsNumber c) (steps : Nat) (rest : List Glyph) :
    Document.readValue (steps + 1) (.char c :: rest) =
      match Document.readNumber (.char c :: rest) with
      | .ok (t, rest) => (.number t, some rest)
      | .error b => (.broken b, none) := by
  rw [Document.readValue, skipSpace_cons hc.isSpace_eq_false]
  split
  case h_1 heq => cases heq
  case h_2 heq | h_3 heq | h_4 heq | h_5 heq | h_6 heq | h_7 heq =>
    obtain rfl : c = _ := Glyph.char.inj (List.cons.inj heq).1
    simp [StartsNumber] at hc
  case h_8 heq =>
    obtain ⟨rfl, rfl⟩ := List.cons.inj heq
    have hstarts : Glyph.char c = .char '-' ∨ Document.isDigit (.char c) = true :=
      hc.imp (congrArg Glyph.char) id
    exact if_pos hstarts

theorem reads_integer (h : IsWord n) : Reads nesting (int n) := by
  obtain ⟨c, gs, hgs, hc⟩ : ∃ c gs, Glyph.ofText (int n).compact = .char c :: gs ∧ StartsNumber c := by
    change ∃ c gs, Glyph.ofText (toString n) = .char c :: gs ∧ StartsNumber c
    rw [ofText_toString]
    by_cases hn : n < 0
    · exact ⟨'-', _, by rw [if_pos hn]; rfl, .inl rfl⟩
    · obtain ⟨c, gs, hdigits, hc⟩ := exists_digits_eq_cons n.natAbs
      exact ⟨c, gs, by rw [if_neg hn, List.nil_append, hdigits], .inr hc⟩
  refine ⟨⟨.char c, gs, hgs, hc.isSpace_eq_false, fun hclose => ?_⟩, fun steps rest hsteps hrest => ?_⟩
  · cases hclose
    simp [StartsNumber] at hc
  · have hnumber : Document.readNumber (Glyph.ofText (int n).compact ++ rest) = _ := readNumber_toString n hrest
    rw [hgs] at hsteps hnumber ⊢
    obtain ⟨steps, rfl⟩ := Nat.exists_eq_add_of_le' (Nat.le_trans (by simp) hsteps : 1 ≤ steps)
    refine ⟨_, ?_, Document.settle_eq_number_iff.mpr ⟨_, rfl, value_digits h⟩⟩
    rw [List.cons_append] at hnumber ⊢
    rw [readValue_number hc, hnumber]

/-! ### Lists and objects -/

theorem compactItems_eq_map (items : List Json) : compactItems items = items.map compact := by
  induction items with
  | nil => rfl
  | cons item items ih => rw [compactItems, ih, List.map_cons]

theorem compactMembers_eq_map (members : List (String × Json)) :
    compactMembers members = members.map fun m => quote m.1 ++ ":" ++ m.2.compact := by
  induction members with
  | nil => rfl
  | cons m members ih => rw [compactMembers, ih, List.map_cons]

def commas (texts : List (List Glyph)) : List Glyph := [.char ','].intercalate texts

@[simp]
theorem commas_singleton (text : List Glyph) : commas [text] = text := by
  simp [commas]

@[simp]
theorem commas_cons_cons (text next : List Glyph) (texts : List (List Glyph)) :
    commas (text :: next :: texts) = text ++ .char ',' :: commas (next :: texts) := by
  simp [commas, List.intercalate_cons_cons]

theorem commas_map_cons_cons {κ : Type} (f : κ → List Glyph) (x y : κ) (l : List κ) :
    commas ((x :: y :: l).map f) = f x ++ .char ',' :: commas ((y :: l).map f) :=
  commas_cons_cons _ _ _

theorem exists_commas_eq_cons (g : Glyph) (gs : List Glyph) (texts : List (List Glyph)) :
    ∃ more, commas ((g :: gs) :: texts) = g :: more := by
  cases texts with
  | nil => exact ⟨gs, commas_singleton _⟩
  | cons next texts => exact ⟨_, commas_cons_cons _ _ _⟩

theorem ofText_append (a b : String) : Glyph.ofText (a ++ b) = Glyph.ofText a ++ Glyph.ofText b := by
  rw [Glyph.ofText, String.toList_append, List.map_append]
  rfl

theorem ofText_intercalate (texts : List String) :
    Glyph.ofText (",".intercalate texts) = commas (texts.map Glyph.ofText) := by
  have hcomma : ",".toList = [','] := by decide
  rw [Glyph.ofText, String.toList_intercalate, hcomma]
  induction texts with
  | nil => rfl
  | cons text texts ih =>
    cases texts with
    | nil => simp [Glyph.ofText]
    | cons next texts =>
      rw [List.map_cons, List.map_cons, List.intercalate_cons_cons, commas_map_cons_cons, ← ih]
      simp [Glyph.ofText]

/-- The text of a member behind its first quote. -/
def memberBody (m : String × Json) : List Glyph :=
  (m.1.toList.flatMap stringChar).map .char ++ .char '"' :: .char ':' :: Glyph.ofText m.2.compact

def memberText (m : String × Json) : List Glyph :=
  .char '"' :: memberBody m

theorem ofText_compact_list (items : List Json) : Glyph.ofText (compact (.list items)) =
    .char '[' :: (commas (items.map fun item => Glyph.ofText item.compact) ++ [.char ']']) := by
  have hopen : Glyph.ofText "[" = [.char '['] := by decide
  have hclose : Glyph.ofText "]" = [.char ']'] := by decide
  rw [compact, compactItems_eq_map, ofText_append, ofText_append, ofText_intercalate, hopen, hclose, List.map_map]
  rfl

theorem ofText_compact_object (members : List (String × Json)) : Glyph.ofText (compact (.object members)) =
    .char '\x7b' :: (commas (members.map memberText) ++ [.char '\x7d']) := by
  have hopen : Glyph.ofText "\x7b" = [.char '\x7b'] := by decide
  have hclose : Glyph.ofText "\x7d" = [.char '\x7d'] := by decide
  have hcolon : Glyph.ofText ":" = [.char ':'] := by decide
  have hmember : ∀ m : String × Json, Glyph.ofText (quote m.1 ++ ":" ++ m.2.compact) = memberText m := by
    intro m
    rw [ofText_append, ofText_append, ofText_quote, hcolon, memberText, memberBody]
    simp
  rw [compact, compactMembers_eq_map, ofText_append, ofText_append, ofText_intercalate, hopen, hclose, List.map_map]
  simp [Function.comp_def, hmember]

/-- Items are read one after the other up to the closing bracket. -/
theorem readItems_of_reads {items : List Json} (h : ∀ item ∈ items, Reads nesting item) (hne : items ≠ [])
    (rest : List Glyph) (steps : Nat)
    (hsteps : (commas (items.map fun item => Glyph.ofText item.compact)).length < steps) :
    ∃ ds, Document.readItems steps (commas (items.map fun item => Glyph.ofText item.compact) ++ .char ']' :: rest) =
      (ds, none, some rest) ∧ List.Forall₂ (fun d j => d.settle nesting = .ok j) ds items := by
  induction items generalizing steps with
  | nil => exact absurd rfl hne
  | cons item items ih =>
    obtain ⟨steps, rfl⟩ := Nat.exists_eq_add_of_le' (Nat.lt_of_le_of_lt (Nat.zero_le _) hsteps : 1 ≤ steps)
    have hitem := h item (by simp)
    cases items with
    | nil =>
      rw [List.map_singleton, commas_singleton] at hsteps ⊢
      obtain ⟨d, hread, hsettle⟩ :=
        hitem.reads steps (.char ']' :: rest) (by omega) (.inr ⟨']', rest, rfl, .inr (.inl rfl)⟩)
      refine ⟨[d], ?_, .cons hsettle .nil⟩
      rw [Document.readItems, hread]
      simp [skipSpace_cons bracket_not_space]
    | cons next more =>
      rw [commas_map_cons_cons] at hsteps ⊢
      rw [List.length_append, List.length_cons] at hsteps
      obtain ⟨ds, hreads, hsettles⟩ := ih (fun i hi => h i (List.mem_cons_of_mem _ hi)) (List.cons_ne_nil _ _) steps
        (by omega)
      -- the next item neither closes the list nor starts with a blank
      obtain ⟨c, cs, hc, hspace, hclose⟩ := (h next (by simp)).starts
      obtain ⟨texts, htexts⟩ :
          ∃ texts, commas ((next :: more).map fun item => Glyph.ofText item.compact) = c :: texts := by
        rw [List.map_cons, hc]
        exact exists_commas_eq_cons c cs _
      rw [htexts, List.cons_append] at hreads
      obtain ⟨d, hread, hsettle⟩ := hitem.reads steps (.char ',' :: (c :: texts ++ .char ']' :: rest)) (by omega)
        (.inr ⟨',', _, rfl, .inl rfl⟩)
      refine ⟨d :: ds, ?_, .cons hsettle hsettles⟩
      rw [htexts, List.append_assoc, List.cons_append, Document.readItems, hread]
      simp only [skipSpace_cons comma_not_space, skipSpace_cons hspace, List.cons_append]
      split
      case h_1 heq => cases heq
      case h_2 heq => exact absurd (List.cons.inj heq).1 hclose
      case h_3 => rw [hreads]

theorem reads_list {items : List Json} (h : ∀ item ∈ items, Reads nesting item) : Reads (nesting + 1) (.list items) := by
  refine ⟨⟨.char '[', _, ofText_compact_list items, rfl, by decide⟩, fun steps rest hsteps _ => ?_⟩
  rw [ofText_compact_list] at hsteps ⊢
  obtain ⟨steps, rfl⟩ := Nat.exists_eq_add_of_le' (Nat.le_trans (by simp) hsteps : 1 ≤ steps)
  rw [List.length_cons, List.length_append, List.length_singleton] at hsteps
  rw [List.cons_append, List.append_assoc, List.singleton_append, Document.readValue, skipSpace_cons rfl]
  cases items with
  | nil =>
    refine ⟨.list [] none, ?_, Document.settle_eq_list_iff.mpr ⟨[], rfl, Nat.succ_ne_zero _, .nil⟩⟩
    simp [commas, skipSpace_cons bracket_not_space]
  | cons item items =>
    obtain ⟨ds, hreads, hsettles⟩ := readItems_of_reads h (List.cons_ne_nil _ _) rest steps (by omega)
    refine ⟨.list ds none, ?_, Document.settle_eq_list_iff.mpr ⟨ds, rfl, Nat.succ_ne_zero _, hsettles⟩⟩
    obtain ⟨c, cs, hc, hspace, hclose⟩ := (h item (by simp)).starts
    obtain ⟨texts, htexts⟩ :
        ∃ texts, commas ((item :: items).map fun item => Glyph.ofText item.compact) = c :: texts := by
      rw [List.map_cons, hc]
      exact exists_commas_eq_cons c cs _
    rw [htexts, List.cons_append] at hreads ⊢
    simp only [skipSpace_cons hspace]
    split
    case h_1 heq => cases heq
    case h_2 heq => exact absurd (List.cons.inj heq).1 hclose
    case h_3 => rw [hreads]

/-- A member in front of something that can follow its value. -/
theorem exists_member {m : String × Json} (h : Reads nesting m.2) (rest : List Glyph) (steps : Nat)
    (hsteps : (memberText m).length ≤ steps + 1) (hrest : Ends rest) : ∃ key d,
      Document.readPieces [] (memberBody m ++ rest) = (key, some (.char ':' :: (Glyph.ofText m.2.compact ++ rest))) ∧
      Document.readValue steps (Glyph.ofText m.2.compact ++ rest) = (d, some rest) ∧
      key.decode = .ok m.1 ∧ d.settle nesting = .ok m.2 := by
  obtain ⟨key, hkey, hdecode⟩ := exists_stringText m.1
  have hlength : (Glyph.ofText m.2.compact).length ≤ steps := by
    simp only [memberText, memberBody, List.length_cons, List.length_append] at hsteps
    omega
  obtain ⟨d, hread, hsettle⟩ := h.reads steps rest hlength hrest
  refine ⟨key, d, ?_, hread, hdecode, hsettle⟩
  rw [memberBody, List.append_assoc, List.cons_append, List.cons_append, hkey]

/-- Members are read one after the other up to the closing brace. -/
theorem readMembers_of_reads {members : List (String × Json)} (h : ∀ m ∈ members, Reads nesting m.2)
    (hne : members ≠ []) (rest : List Glyph) (steps : Nat) (hsteps : (commas (members.map memberText)).length < steps) :
    ∃ body ds, commas (members.map memberText) ++ .char '\x7d' :: rest = .char '"' :: body ∧
      Document.readMembers steps body = (ds, none, some rest) ∧ Document.SayMembers nesting ds members := by
  induction members generalizing steps with
  | nil => exact absurd rfl hne
  | cons m members ih =>
    obtain ⟨steps, rfl⟩ := Nat.exists_eq_add_of_le' (Nat.lt_of_le_of_lt (Nat.zero_le _) hsteps : 1 ≤ steps)
    cases members with
    | nil =>
      rw [List.map_singleton, commas_singleton] at hsteps ⊢
      obtain ⟨key, d, hkey, hread, hdecode, hsettle⟩ :=
        exists_member (h m (by simp)) (.char '\x7d' :: rest) steps (by omega) (.inr ⟨'\x7d', rest, rfl, .inr (.inr rfl)⟩)
      refine ⟨memberBody m ++ .char '\x7d' :: rest, [(key, d)], rfl, ?_, .cons ⟨hdecode, hsettle⟩ .nil⟩
      rw [Document.readMembers, hkey]
      simp [skipSpace_cons, Document.isSpace, hread]
    | cons next more =>
      rw [commas_map_cons_cons] at hsteps ⊢
      rw [List.length_append, List.length_cons] at hsteps
      obtain ⟨body, ds, hbody, hreads, hsays⟩ :=
        ih (fun i hi => h i (List.mem_cons_of_mem _ hi)) (List.cons_ne_nil _ _) steps (by omega)
      obtain ⟨key, d, hkey, hread, hdecode, hsettle⟩ :=
        exists_member (h m (by simp)) (.char ',' :: .char '"' :: body) steps (by omega) (.inr ⟨',', _, rfl, .inl rfl⟩)
      refine ⟨memberBody m ++ .char ',' :: .char '"' :: body, (key, d) :: ds, ?_, ?_, .cons ⟨hdecode, hsettle⟩ hsays⟩
      · rw [List.append_assoc, List.cons_append, hbody]
        rfl
      · rw [Document.readMembers, hkey]
        simp [skipSpace_cons, Document.isSpace, hread, hreads]

theorem reads_object {members : List (String × Json)} (h : ∀ m ∈ members, Reads nesting m.2) :
    Reads (nesting + 1) (.object members) := by
  refine ⟨⟨.char '\x7b', _, ofText_compact_object members, rfl, by decide⟩, fun steps rest hsteps _ => ?_⟩
  rw [ofText_compact_object] at hsteps ⊢
  obtain ⟨steps, rfl⟩ := Nat.exists_eq_add_of_le' (Nat.le_trans (by simp) hsteps : 1 ≤ steps)
  rw [List.length_cons, List.length_append, List.length_singleton] at hsteps
  rw [List.cons_append, List.append_assoc, List.singleton_append, Document.readValue, skipSpace_cons rfl]
  cases members with
  | nil =>
    refine ⟨.object [] none, ?_, Document.settle_eq_object_iff.mpr ⟨[], rfl, Nat.succ_ne_zero _, .nil⟩⟩
    simp [commas, skipSpace_cons, Document.isSpace]
  | cons m members =>
    obtain ⟨body, ds, hbody, hreads, hsays⟩ := readMembers_of_reads h (List.cons_ne_nil _ _) rest steps (by omega)
    refine ⟨.object ds none, ?_, Document.settle_eq_object_iff.mpr ⟨ds, rfl, Nat.succ_ne_zero _, hsays⟩⟩
    rw [hbody]
    simp [skipSpace_cons, Document.isSpace, hreads]

/-! ### Plain values -/

/-- A value without real numbers, whose integers have 64 bits, and whose lists and objects are nested at most so
deep. -/
def Plain : Nat → Json → Prop
  | _, .null => True
  | _, .bool _ => True
  | _, .number (.integer n) => IsWord n
  | _, .number (.real _) => False
  | _, .string _ => True
  | 0, .list _ => False
  | depth + 1, .list items => ∀ item ∈ items, Plain depth item
  | 0, .object _ => False
  | depth + 1, .object members => ∀ m ∈ members, Plain depth m.2

theorem plain_string (depth : Nat) (text : String) : Plain depth (.string text) := by
  cases depth <;> trivial

theorem plain_int (depth : Nat) (h : IsWord n) : Plain depth (int n) := by
  cases depth <;> exact h

theorem reads_of_plain {j : Json} (h : Plain nesting j) : Reads nesting j := by
  induction nesting generalizing j with
  | zero =>
    cases j with
    | null => exact reads_null _
    | bool b => exact reads_bool _ b
    | string text => exact reads_string _ text
    | number n =>
      cases n with
      | integer n => exact reads_integer h
      | real x => exact h.elim
    | list items => exact h.elim
    | object members => exact h.elim
  | succ depth ih =>
    cases j with
    | null => exact reads_null _
    | bool b => exact reads_bool _ b
    | string text => exact reads_string _ text
    | number n =>
      cases n with
      | integer n => exact reads_integer h
      | real x => exact h.elim
    | list items => exact reads_list fun item hitem => ih (h item hitem)
    | object members => exact reads_object fun m hm => ih (h m hm)

/-- **A compact text holds the value that it was written for.** -/
theorem isTextOf_compact {j : Json} (h : Plain greatestNesting j) : IsTextOf j.compact j := by
  obtain ⟨d, hread, hsettle⟩ :=
    (reads_of_plain h).reads (2 * (Glyph.ofText j.compact).length + 2) [] (by omega) (.inl rfl)
  rw [List.append_nil] at hread
  simp [IsTextOf, decodeText, Document.readStart, hread, hsettle, Document.skipSpace]

end Json
end Dimensional
