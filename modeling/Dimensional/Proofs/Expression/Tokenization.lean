import Dimensional.Proofs.Expression.Scanning

/-!
# What the tokens of a text are

`Tokenizes` says which tokens a text has: their spans lie in order and apart from each other, exactly the blanks are in
none of them, each lexeme says what is written in its span (`Lexeme.Reads`), and no run of characters is cut in two.

The main statement is `tokenizes_iff`: the scanner gives these tokens, and there are no others.
-/

namespace Dimensional

/-! ### Lexemes and what is written -/

/-- Some characters are written in the text for a lexeme. -/
inductive Lexeme.Reads : Lexeme → List Char → Prop
  | name {cs : List Char} (hne : cs ≠ []) (hcs : ∀ c ∈ cs, IsNameChar c) : Reads (.name (String.ofList cs)) cs
  | natural (d : DigitRun) : Reads (.natural (min d.value greatestNatural)) d.chars
  | superscript (d : DigitRun) :
      Reads (.superscript (min d.value greatestNatural)) (d.chars.map Superscript.raise)
  | minus : Reads .minus ['-']
  | superscriptMinus : Reads .superscriptMinus [Superscript.minus]
  | caret : Reads .caret ['^']
  | star : Reads .star ['*']
  | slash : Reads .slash ['/']

/-- Lexemes of runs that are a single run when nothing stands between them. -/
inductive Lexeme.RunTogether : Lexeme → Lexeme → Prop
  | names (m n : String) : RunTogether (.name m) (.name n)
  | naturals (m n : Nat) : RunTogether (.natural m) (.natural n)
  | superscripts (m n : Nat) : RunTogether (.superscript m) (.superscript n)

def Lexeme.charClass : Lexeme → CharClass
  | .name _ => .identifier
  | .natural _ => .digit
  | .superscript _ => .superscriptDigit
  | .minus | .superscriptMinus | .caret | .star | .slash => .symbol

variable {text front cs rest : List Char} {c : Char} {l : Lexeme} {s t : Token} {ts : List Token} {i p : Nat}

theorem Lexeme.runTogether_iff {l' : Lexeme} :
    l.RunTogether l' ↔ l.charClass = l'.charClass ∧ l.charClass ≠ .symbol := by
  constructor
  · rintro (⟨m, n⟩ | ⟨m, n⟩ | ⟨m, n⟩) <;> exact ⟨rfl, fun hk => by cases hk⟩
  · rintro ⟨heq, hne⟩
    cases l <;> cases l' <;> first | constructor | exact absurd rfl hne | cases heq

theorem Lexeme.Reads.isRun (h : l.Reads cs) : IsRun l.charClass cs := by
  cases h with
  | name hne hcs => exact ⟨hne, fun c hc => classOf_eq_iff.mpr (hcs c hc)⟩
  | natural d => exact isRun_digits d
  | superscript d => exact isRun_raised d
  | _ => exact ⟨List.cons_ne_nil _ _, List.forall_mem_singleton.mpr rfl⟩

theorem Lexeme.Reads.isName {n : String} (h : (Lexeme.name n).Reads cs) : IsName n := by
  cases h with
  | name hne hcs =>
    refine ⟨fun he => hne (String.ofList_eq_empty_iff.mp he), fun c hc => hcs c ?_⟩
    rwa [String.toList_ofList] at hc

theorem Lexeme.Reads.charClass_ne_blank (h : l.Reads cs) : l.charClass ≠ .blank := by
  cases h <;> exact fun hk => by cases hk

theorem Lexeme.Reads.length_eq_one (h : l.Reads cs) (hl : l.charClass = .symbol) : cs.length = 1 := by
  cases h with
  | name | natural | superscript => cases hl
  | _ => rfl

/-- What is written determines the lexeme. -/
theorem Lexeme.Reads.ofRun?_eq (h : l.Reads cs) : Lexeme.ofRun? cs = some l := by
  have hrun := h.isRun
  cases h with
  | name hne hcs => exact ofRun?_name hrun
  | natural d => exact ofRun?_digits d
  | superscript d => exact ofRun?_raised d
  | _ => rfl

theorem reads_ofSymbol? (h : Lexeme.ofSymbol? c = some l) : l.Reads [c] := by
  unfold Lexeme.ofSymbol? at h
  split at h <;> cases h <;> constructor

theorem exists_raise_eq (h : (Superscript.digit? c).isSome = true) :
    ∃ e : Char, e.isDigit = true ∧ Superscript.raise e = c := by
  obtain ⟨n, hn⟩ := Option.isSome_iff_exists.mp h
  refine ⟨n.digitChar, ?_⟩
  unfold Superscript.digit? at hn
  split at hn <;> cases hn <;> decide

/-- Superscript digits are raised digits. -/
theorem exists_map_raise_eq (h : ∀ c ∈ cs, (Superscript.digit? c).isSome = true) :
    ∃ es : List Char, (∀ e ∈ es, e.isDigit = true) ∧ es.map Superscript.raise = cs := by
  induction cs with
  | nil => exact ⟨[], fun _ he => absurd he List.not_mem_nil, rfl⟩
  | cons c cs ih =>
    obtain ⟨hc, hcs⟩ := List.forall_mem_cons.mp h
    obtain ⟨e, he, rfl⟩ := exists_raise_eq hc
    obtain ⟨es, hes, rfl⟩ := ih hcs
    exact ⟨e :: es, List.forall_mem_cons.mpr ⟨he, hes⟩, rfl⟩

/-- **Every longest run but a blank is read.** -/
theorem exists_reads (h : IsLongestRun c cs rest) (hc : isBlank c = false) : ∃ l : Lexeme, l.Reads (c :: cs) := by
  have hclass : ∀ d ∈ c :: cs, CharClass.of d = CharClass.of c := by
    intro d hd
    rcases List.mem_cons.mp hd with rfl | hd
    · rfl
    · exact (continuesRun_iff.mp (h.continues d hd)).1
  have hne : c :: cs ≠ [] := List.cons_ne_nil c cs
  cases hk : CharClass.of c with
  | digit => exact ⟨_, .natural ⟨c :: cs, hne, fun d hd => classOf_eq_iff.mp ((hclass d hd).trans hk)⟩⟩
  | superscriptDigit =>
    obtain ⟨es, hes, hmap⟩ := exists_map_raise_eq fun d hd => classOf_eq_iff.mp ((hclass d hd).trans hk)
    have hesne : es ≠ [] := fun hnil => hne (by rw [← hmap, hnil]; rfl)
    rw [← hmap]
    exact ⟨_, .superscript ⟨es, hesne, hes⟩⟩
  | symbol =>
    obtain ⟨l, hl⟩ := classOf_eq_iff.mp hk
    have hnil : cs = [] := by
      refine List.eq_nil_iff_forall_not_mem.mpr fun d hd => ?_
      exact (continuesRun_iff.mp (h.continues d hd)).2.1 hk
    rw [hnil]
    exact ⟨l, reads_ofSymbol? hl⟩
  | blank =>
    have hblank : isBlank c = true := classOf_eq_iff.mp hk
    rw [hc] at hblank
    cases hblank
  | identifier => exact ⟨_, .name hne fun d hd => classOf_eq_iff.mp ((hclass d hd).trans hk)⟩

/-- What stands behind a longest run is of another class. -/
theorem IsLongestRun.classOf_ne (h : IsLongestRun c cs rest) (hl : l.Reads (c :: cs))
    (hsymbol : l.charClass ≠ .symbol) : ∀ d ∈ rest.head?, CharClass.of d ≠ l.charClass := by
  have hclass : CharClass.of c = l.charClass := hl.isRun.classOf c List.mem_cons_self
  intro d hd hsame
  have hstop := h.stops d hd
  rw [Bool.eq_false_iff] at hstop
  exact hstop (continuesRun_iff.mpr ⟨hsame.trans hclass.symm, hclass ▸ hsymbol, hclass ▸ hl.charClass_ne_blank⟩)

/-! ### Tokenizations -/

def Token.Covers (t : Token) (i : Nat) : Prop := t.span.start ≤ i ∧ i < t.span.stop

/-- The tokens of a text from the position `p` on. -/
structure Tokenizes (text : List Char) (p : Nat) (ts : List Token) : Prop where
  behind : ∀ t ∈ ts, p ≤ t.span.start
  nonempty : ∀ t ∈ ts, t.span.start < t.span.stop
  within : ∀ t ∈ ts, t.span.stop ≤ text.length
  ordered : ts.Pairwise fun s t => s.span.stop ≤ t.span.start
  /-- The blanks are the characters outside all tokens. -/
  blanks : ∀ i c, p ≤ i → text[i]? = some c → (isBlank c = true ↔ ∀ t ∈ ts, ¬ t.Covers i)
  reads : ∀ t ∈ ts, t.lexeme.Reads (t.span.slice text)
  /-- No run of characters is cut in two. -/
  maximal : ∀ s ∈ ts, ∀ t ∈ ts, s.span.stop = t.span.start → ¬ s.lexeme.RunTogether t.lexeme

theorem length_slice {s : Span} (h : s.stop ≤ text.length) : (s.slice text).length = s.length := by
  simp only [Span.slice, Span.length, List.length_take, List.length_drop]
  omega

theorem mem_slice {s : Span} (h : s.start ≤ i ∧ i < s.stop) (hc : text[i]? = some c) : c ∈ s.slice text := by
  refine List.mem_iff_getElem?.mpr ⟨i - s.start, ?_⟩
  rw [Span.slice, List.getElem?_take_of_lt (by simp only [Span.length]; omega), List.getElem?_drop,
    Nat.add_sub_cancel' h.1, hc]

theorem slice_append (front cs rest : List Char) :
    Span.slice ⟨front.length, front.length + cs.length⟩ (front ++ (cs ++ rest)) = cs := by
  simp [Span.slice, Span.length]

namespace Tokenizes

/-- All characters of a token are of one class. -/
theorem classOf (h : Tokenizes text p ts) (ht : t ∈ ts) (hi : t.Covers i) (hc : text[i]? = some c) :
    CharClass.of c = t.lexeme.charClass :=
  (h.reads t ht).isRun.classOf c (mem_slice hi hc)

/-- Every character but a blank belongs to a token. -/
theorem exists_covers (h : Tokenizes text p ts) (hi : p ≤ i) (hc : text[i]? = some c) (hne : CharClass.of c ≠ .blank) :
    ∃ t ∈ ts, t.Covers i := by
  by_contra hnone
  refine hne (classOf_blank ((h.blanks i c hi hc).mpr fun t ht hcov => ?_))
  exact hnone ⟨t, ht, hcov⟩

theorem covers_start (h : Tokenizes text p ts) (ht : t ∈ ts) : t.Covers t.span.start :=
  ⟨Nat.le_refl _, h.nonempty t ht⟩

theorem exists_getElem?_start (h : Tokenizes text p ts) (ht : t ∈ ts) : ∃ d, text[t.span.start]? = some d :=
  ⟨_, List.getElem?_eq_getElem (Nat.lt_of_lt_of_le (h.nonempty t ht) (h.within t ht))⟩

/-- A token that begins where the text begins is the first one. -/
theorem start_eq (h : Tokenizes text p (s :: ts)) (hcov : ∃ t ∈ s :: ts, t.Covers p) : s.span.start = p := by
  obtain ⟨t, ht, hcov⟩ := hcov
  have hs := h.behind s List.mem_cons_self
  have hpos := h.nonempty s List.mem_cons_self
  rcases List.mem_cons.mp ht with rfl | ht
  · exact Nat.le_antisymm hcov.1 hs
  · have hst := (List.pairwise_cons.mp h.ordered).1 t ht
    have hle := hcov.1
    omega

theorem tail (h : Tokenizes text p (s :: ts)) : Tokenizes text s.span.stop ts := by
  obtain ⟨hhead, hordered⟩ := List.pairwise_cons.mp h.ordered
  have hmem : ∀ {t}, t ∈ ts → t ∈ s :: ts := List.mem_cons_of_mem s
  refine ⟨hhead, fun t ht => h.nonempty t (hmem ht), fun t ht => h.within t (hmem ht), hordered, ?_,
    fun t ht => h.reads t (hmem ht), fun t ht u hu => h.maximal t (hmem ht) u (hmem hu)⟩
  intro i c hi hc
  have hp : p ≤ i := by
    have hpos := h.nonempty s List.mem_cons_self
    have hbehind := h.behind s List.mem_cons_self
    omega
  have hs : ¬ s.Covers i := fun hs => absurd hs.2 (Nat.not_lt.mpr hi)
  rw [h.blanks i c hp hc, List.forall_mem_cons, and_iff_right hs]

/-- Behind the text there is no token. -/
theorem iff_eq_nil (hp : text.length ≤ p) : Tokenizes text p ts ↔ ts = [] := by
  constructor
  · intro h
    refine List.eq_nil_iff_forall_not_mem.mpr fun t ht => ?_
    have hwithin := h.within t ht
    have hpos := h.nonempty t ht
    have hbehind := h.behind t ht
    omega
  · rintro rfl
    refine ⟨by simp, by simp, by simp, .nil, fun i c hi hc => ?_, by simp, by simp⟩
    rw [List.getElem?_eq_none (Nat.le_trans hp hi)] at hc
    cases hc

/-- A blank is passed over. -/
theorem iff_of_blank (hc : text[p]? = some c) (hblank : isBlank c = true) :
    Tokenizes text p ts ↔ Tokenizes text (p + 1) ts := by
  constructor
  · intro h
    refine ⟨fun t ht => ?_, h.nonempty, h.within, h.ordered, fun i d hi => h.blanks i d (by omega), h.reads, h.maximal⟩
    have hnot := (h.blanks p c (Nat.le_refl p) hc).mp hblank t ht
    have hne : t.span.start ≠ p := fun hp => hnot (hp ▸ h.covers_start ht)
    have hbehind := h.behind t ht
    omega
  · intro h
    refine ⟨fun t ht => Nat.le_of_succ_le (h.behind t ht), h.nonempty, h.within, h.ordered, fun i d hi hd => ?_,
      h.reads, h.maximal⟩
    rcases Nat.eq_or_lt_of_le hi with rfl | hi
    · obtain rfl : c = d := Option.some.inj (hc.symm.trans hd)
      refine iff_of_true hblank fun t ht hcov => ?_
      exact Nat.not_succ_le_self _ (Nat.le_trans (h.behind t ht) hcov.1)
    · exact h.blanks i d hi hd

/-! ### The token of a run -/

theorem getElem?_run (hi : front.length ≤ i) (hlt : i < front.length + (c :: cs).length) (rest : List Char) :
    ∃ d ∈ c :: cs, (front ++ (c :: cs ++ rest))[i]? = some d := by
  have hrun : i - front.length < (c :: cs).length := by omega
  refine ⟨(c :: cs)[i - front.length], List.getElem_mem hrun, ?_⟩
  rw [List.getElem?_append_right hi, List.getElem?_append_left hrun, List.getElem?_eq_getElem hrun]

theorem getElem?_rest : (front ++ (c :: cs ++ rest))[front.length + (c :: cs).length]? = rest.head? := by
  rw [List.getElem?_append_right (by omega), List.getElem?_append_right (by omega), List.head?_eq_getElem?]
  congr 1
  omega

/-- A token is put in front of those of the rest. -/
theorem cons (hrun : IsLongestRun c cs rest) (hl : l.Reads (c :: cs))
    (h : Tokenizes (front ++ (c :: cs ++ rest)) (front.length + (c :: cs).length) ts) :
    Tokenizes (front ++ (c :: cs ++ rest)) front.length
      (⟨l, front.length, front.length + (c :: cs).length⟩ :: ts) := by
  have hpos : 0 < (c :: cs).length := Nat.zero_lt_succ _
  refine ⟨?_, ?_, ?_, List.pairwise_cons.mpr ⟨h.behind, h.ordered⟩, ?_, ?_, ?_⟩
  · refine List.forall_mem_cons.mpr ⟨Nat.le_refl _, fun t ht => ?_⟩
    exact Nat.le_trans (Nat.le_add_right _ _) (h.behind t ht)
  · exact List.forall_mem_cons.mpr ⟨Nat.lt_add_of_pos_right hpos, h.nonempty⟩
  · refine List.forall_mem_cons.mpr ⟨?_, h.within⟩
    simp only [List.length_append]
    omega
  · intro i d hi hd
    rw [List.forall_mem_cons]
    rcases Nat.lt_or_ge i (front.length + (c :: cs).length) with hlt | hge
    · obtain ⟨d', hmem, hd'⟩ := getElem?_run hi hlt rest
      obtain rfl : d = d' := Option.some.inj (hd.symm.trans hd')
      have hsame := hl.isRun.classOf d hmem
      refine iff_of_false (fun hb => ?_) fun hnone => hnone.1 ⟨hi, hlt⟩
      exact hl.charClass_ne_blank (hsame.symm.trans (classOf_blank hb))
    · have hout : ¬ Token.Covers ⟨l, front.length, front.length + (c :: cs).length⟩ i := fun hcov =>
        absurd hcov.2 (Nat.not_lt.mpr hge)
      rw [and_iff_right hout]
      exact h.blanks i d hge hd
  · exact List.forall_mem_cons.mpr ⟨by rw [slice_append]; exact hl, h.reads⟩
  · intro s hs t ht htouch htogether
    rcases List.mem_cons.mp hs with rfl | hs <;> rcases List.mem_cons.mp ht with rfl | ht
    · simp only at htouch
      omega
    · -- the next token begins with what the run was not gone on with
      obtain ⟨hkind, hne⟩ := Lexeme.runTogether_iff.mp htogether
      obtain ⟨d, hd⟩ := h.exists_getElem?_start ht
      have hclass := h.classOf ht (h.covers_start ht) hd
      rw [← htouch, getElem?_rest] at hd
      exact hrun.classOf_ne hl hne d hd (hclass.trans hkind.symm)
    · have hpos := h.nonempty s hs
      have hbehind := h.behind s hs
      simp only at htouch
      omega
    · exact h.maximal s hs t ht htouch htogether

/-- The first token does not stop inside of a run. -/
theorem not_stop_lt (h : Tokenizes (front ++ (c :: cs ++ rest)) front.length (s :: ts)) (hl : l.Reads (c :: cs))
    (hstart : s.span.start = front.length) (hkind : s.lexeme.charClass = l.charClass) :
    ¬ s.span.stop < front.length + (c :: cs).length := by
  intro hlt
  have hpos := h.nonempty s List.mem_cons_self
  have hle : front.length ≤ s.span.stop := by omega
  obtain ⟨d, hmem, hd⟩ := getElem?_run hle hlt rest
  have hclass := hl.isRun.classOf d hmem
  -- the rest of the run would belong to a second token, and the two would run together
  obtain ⟨t, ht, hcov⟩ := h.exists_covers hle hd (hclass ▸ hl.charClass_ne_blank)
  have hts : t ∈ ts := by
    rcases List.mem_cons.mp ht with rfl | hts
    · exact absurd hcov.2 (Nat.lt_irrefl _)
    · exact hts
  have htouch : s.span.stop = t.span.start :=
    Nat.le_antisymm ((List.pairwise_cons.mp h.ordered).1 t hts) hcov.1
  have hsame : t.lexeme.charClass = l.charClass := (h.classOf ht hcov hd).symm.trans hclass
  have hsymbol : l.charClass ≠ .symbol := fun hk => by
    have hone := hl.length_eq_one hk
    omega
  refine h.maximal s List.mem_cons_self t ht htouch (Lexeme.runTogether_iff.mpr ⟨?_, ?_⟩)
  · rw [hkind, hsame]
  · rwa [hkind]

/-- The first token does not go on over the end of a run. -/
theorem not_lt_stop (h : Tokenizes (front ++ (c :: cs ++ rest)) front.length (s :: ts)) (hrun : IsLongestRun c cs rest)
    (hl : l.Reads (c :: cs)) (hstart : s.span.start = front.length) (hkind : s.lexeme.charClass = l.charClass) :
    ¬ front.length + (c :: cs).length < s.span.stop := by
  intro hlt
  have hs : s ∈ s :: ts := List.mem_cons_self
  have hsymbol : l.charClass ≠ .symbol := fun hk => by
    have hone := (h.reads s hs).length_eq_one (hkind.trans hk)
    rw [length_slice (h.within s hs), Span.length] at hone
    have hpos : 0 < (c :: cs).length := Nat.zero_lt_succ _
    omega
  have hcov : s.Covers (front.length + (c :: cs).length) := ⟨by omega, hlt⟩
  have hd := List.getElem?_eq_getElem (Nat.lt_of_lt_of_le hlt (h.within s hs))
  have hclass := h.classOf hs hcov hd
  rw [getElem?_rest] at hd
  exact hrun.classOf_ne hl hsymbol _ hd (hclass.trans hkind)

/-- The first token stands over the run that is there. -/
theorem exists_cons (hrun : IsLongestRun c cs rest) (hl : l.Reads (c :: cs))
    (h : Tokenizes (front ++ (c :: cs ++ rest)) front.length ts) :
    ∃ us, ts = ⟨l, front.length, front.length + (c :: cs).length⟩ :: us := by
  have hclass : CharClass.of c = l.charClass := hl.isRun.classOf c List.mem_cons_self
  have hfirst : (front ++ (c :: cs ++ rest))[front.length]? = some c := by simp
  have hcov := h.exists_covers (Nat.le_refl _) hfirst (hclass ▸ hl.charClass_ne_blank)
  cases ts with
  | nil =>
    obtain ⟨t, ht, -⟩ := hcov
    cases ht
  | cons s us =>
    have hs : s ∈ s :: us := List.mem_cons_self
    have hstart : s.span.start = front.length := h.start_eq hcov
    have hkind : s.lexeme.charClass = l.charClass :=
      (h.classOf hs (hstart ▸ h.covers_start hs) hfirst).symm.trans hclass
    have hstop : s.span.stop = front.length + (c :: cs).length := by
      rcases Nat.lt_trichotomy s.span.stop (front.length + (c :: cs).length) with hlt | heq | hgt
      · exact absurd hlt (h.not_stop_lt hl hstart hkind)
      · exact heq
      · exact absurd hgt (h.not_lt_stop hrun hl hstart hkind)
    have hspan : s.span = ⟨front.length, front.length + (c :: cs).length⟩ := Span.ext hstart hstop
    have hreads := (h.reads s hs).ofRun?_eq
    rw [hspan, slice_append, hl.ofRun?_eq] at hreads
    obtain ⟨lexeme, span⟩ := s
    obtain rfl : l = lexeme := Option.some.inj hreads
    obtain rfl := hspan
    exact ⟨us, rfl⟩

end Tokenizes

/-- Tokens of a text behind some other text. -/
theorem tokenizes_append_iff (front chars : List Char) (ts : List Token) :
    Tokenizes (front ++ chars) front.length ts ↔ ts = scanFrom front.length chars := by
  induction chars using runInduction generalizing front ts with
  | nil =>
    rw [scanFrom_nil, List.append_nil]
    exact Tokenizes.iff_eq_nil (Nat.le_refl _)
  | run c cs rest hrun ih =>
    have hfirst : (front ++ (c :: cs ++ rest))[front.length]? = some c := by simp
    have hrest : ∀ us, Tokenizes (front ++ (c :: cs ++ rest)) (front.length + (c :: cs).length) us ↔
        us = scanFrom (front.length + (c :: cs).length) rest := by
      intro us
      rw [← List.append_assoc, ← List.length_append]
      exact ih (front ++ c :: cs) us
    by_cases hblank : isBlank c = true
    · obtain rfl : cs = [] := by
        refine List.eq_nil_iff_forall_not_mem.mpr fun d hd => ?_
        exact (continuesRun_iff.mp (hrun.continues d hd)).2.2 (classOf_blank hblank)
      rw [Tokenizes.iff_of_blank hfirst hblank, List.singleton_append, scanFrom_cons_blank hblank]
      exact hrest ts
    · obtain ⟨l, hl⟩ := exists_reads hrun (Bool.eq_false_iff.mpr hblank)
      rw [scanFrom_longest hrun, hl.ofRun?_eq]
      constructor
      · intro h
        obtain ⟨us, rfl⟩ := h.exists_cons hrun hl
        rw [(hrest us).mp h.tail]
        rfl
      · rintro rfl
        exact Tokenizes.cons hrun hl ((hrest _).mpr rfl)

theorem tokenizes_scan (source : String) : Tokenizes source.toList 0 (scan source) :=
  (tokenizes_append_iff [] source.toList _).mpr rfl

/-- **The scanner gives the tokens of the text, and there are no others.** -/
theorem tokenizes_iff (source : String) (ts : List Token) : Tokenizes source.toList 0 ts ↔ ts = scan source :=
  tokenizes_append_iff [] source.toList ts

end Dimensional
