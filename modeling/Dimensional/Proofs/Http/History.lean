import Dimensional.Http.Service
import Dimensional.Proofs.Resolver.Layers

/-!
# Histories of the service

Of all requests only those to load units that are answered with success change the resolver (`respond_cases`). So the
resolver after a series of requests is known from the requests and their answers: it is the first one with the loaded
bodies merged over it in order, and loading just these bodies gives it, too (`Replays`).

The main statement is `serve_history`, about every point of a history: the resolver there, the answer that is given
there, and the number that is told after units were loaded.
-/

namespace Dimensional
namespace Http

open Resolver (Loading)

variable {r s : Resolver} {q : Request} {qs qs' : List Request}

/-! ### Loading requests -/

def Request.isLoad (q : Request) : Bool := q.route == "/units" && q.method == "POST"

/-- A request to load units that was answered with success. -/
def isLoaded (p : Request × Response) : Bool := p.1.isLoad && p.2.status == 200

def loadedBodies (qs : List Request) (answers : List Response) : List ByteArray :=
  ((qs.zip answers).filter isLoaded).map fun p => p.1.body

def loadedAnswer (s : Resolver) : Response :=
  .json (.object [("units", Json.nat s.system.keys.card)])

theorem respond_of_isLoad (h : q.isLoad = true) : respond r q = loadUnits r q := by
  rw [Request.isLoad, Bool.and_eq_true, beq_iff_eq, beq_iff_eq] at h
  obtain ⟨hroute, hmethod⟩ := h
  simp [respond, hmethod, hroute]

/-- Other requests do not change the resolver. -/
theorem respond_of_not_isLoad (h : q.isLoad = false) : (respond r q).2 = r := by
  unfold respond
  split
  · rfl
  · split
    · rfl
    · rfl
    · rfl
    · rfl
    · next hroute hmethod =>
      rw [Request.isLoad, hroute, hmethod] at h
      cases h
    · rfl

theorem status_ofFailure_ne (f : Failure) : (Response.ofFailure f).status ≠ 200 := by
  show Response.statusOf f ≠ 200
  cases f <;> simp [Response.statusOf]

/-- **What a request can do.** Either nothing is loaded and the resolver is unchanged, or the body is a unit system file
that fits, and it is merged over the resolver. -/
theorem respond_cases (r : Resolver) (q : Request) :
    (isLoaded (q, (respond r q).1) = false ∧ (respond r q).2 = r) ∨
      ∃ text file, Utf8.decode q.body = .ok text ∧ UnitSystemFile.ofText text = .ok file ∧
        r.addText text = .ok (r.extend file) ∧ q.isLoad = true ∧
          respond r q = (loadedAnswer (r.extend file), r.extend file) := by
  cases hl : q.isLoad with
  | false => exact .inl ⟨by simp [isLoaded, hl], respond_of_not_isLoad hl⟩
  | true =>
    rw [respond_of_isLoad hl, loadUnits]
    split
    · exact .inl ⟨by simp [isLoaded, tooLarge], rfl⟩
    · split
      · exact .inl ⟨by simp [isLoaded, notText], rfl⟩
      · next text htext =>
        rcases Resolver.loadText_cases r text with ⟨f, hf⟩ | ⟨file, hfile, -, hok⟩
        · rw [hf]
          refine .inl ⟨?_, rfl⟩
          have hstatus := status_ofFailure_ne f
          simp [isLoaded, hstatus]
        · refine .inr ⟨text, file, htext, hfile, ?_, rfl, ?_⟩
          · rw [Resolver.addText, Loading.loaded, hok]
          · rw [hok, loadedAnswer, NameMap.card_keys]

/-- Without success for units, the resolver is kept. -/
theorem respond_of_not_isLoaded (h : isLoaded (q, (respond r q).1) = false) : (respond r q).2 = r := by
  rcases respond_cases r q with ⟨-, hkept⟩ | ⟨text, file, -, -, -, hload, hrespond⟩
  · exact hkept
  · rw [hrespond, isLoaded, hload] at h
    cases h

/-- Success for units tells how many names are loaded. -/
theorem respond_of_isLoaded (h : isLoaded (q, (respond r q).1) = true) :
    (respond r q).1 = loadedAnswer (respond r q).2 := by
  rcases respond_cases r q with ⟨hno, -⟩ | ⟨text, file, -, -, -, -, hrespond⟩
  · rw [hno] at h
    cases h
  · rw [hrespond]

/-! ### Merged bodies -/

def IsFile (body : ByteArray) (file : UnitSystemFile) : Prop :=
  ∃ text, Utf8.decode body = .ok text ∧ UnitSystemFile.ofText text = .ok file

/-- `s` is `r` with the files in some bodies merged over it in order, so that the last one that gives something counts;
and `s` is what loading these bodies into `r` gives. -/
structure Replays (r : Resolver) (bodies : List ByteArray) (s : Resolver) : Prop where
  merged : ∃ files, List.Forall₂ IsFile bodies files ∧ s = r.extendAll files ∧ r.Holds files s
  reloaded : ∃ texts : List String, bodies.map Utf8.decode = texts.map .ok ∧ texts.foldlM Resolver.addText r = .ok s

theorem Replays.nil (r : Resolver) : Replays r [] r :=
  ⟨⟨[], .nil, rfl, r.holds_extendAll []⟩, [], rfl, rfl⟩

theorem Replays.cons {body : ByteArray} {bodies : List ByteArray} {text : String} {file : UnitSystemFile}
    (htext : Utf8.decode body = .ok text) (hfile : UnitSystemFile.ofText text = .ok file)
    (hload : r.addText text = .ok (r.extend file)) (h : Replays (r.extend file) bodies s) :
    Replays r (body :: bodies) s := by
  obtain ⟨files, hfiles, rfl, -⟩ := h.merged
  obtain ⟨texts, htexts, hreload⟩ := h.reloaded
  have hall : (r.extend file).extendAll files = r.extendAll (file :: files) := rfl
  refine ⟨⟨file :: files, .cons ⟨text, htext, hfile⟩ hfiles, hall, ?_⟩, text :: texts, ?_, ?_⟩
  · rw [hall]
    exact r.holds_extendAll _
  · rw [List.map_cons, List.map_cons, htext, htexts]
  · rw [List.foldlM_cons, hload]
    exact hreload

theorem exists_isFile {text : String} {units : UnitSystem} (h : UnitSystemFile.unitsOf? text = some units) :
    ∃ file, IsFile text.toUTF8 file ∧ file.units = units := by
  obtain ⟨file, hfile, hunits⟩ := UnitSystemFile.unitsOf?_eq_some_iff.mp h
  exact ⟨file, ⟨text, Utf8.decode_toUTF8 text, hfile⟩, hunits⟩

theorem isFile_rightUnique : Relator.RightUnique IsFile := by
  rintro body file other ⟨text, htext, hfile⟩ ⟨text', htext', hother⟩
  obtain rfl : text = text' := Except.ok.inj (htext.symm.trans htext')
  exact Except.ok.inj (hfile.symm.trans hother)

/-- The bodies alone say what the resolver holds. -/
theorem Replays.holds {bodies : List ByteArray} {files : List UnitSystemFile} (h : Replays r bodies s)
    (hfiles : List.Forall₂ IsFile bodies files) : r.Holds files s := by
  obtain ⟨others, hothers, -, hholds⟩ := h.merged
  obtain rfl : files = others := List.right_unique_forall₂' isFile_rightUnique hfiles hothers
  exact hholds

/-! ### Runs -/

theorem length_answers (r : Resolver) (qs : List Request) : (serve r qs).1.length = qs.length := by
  induction qs generalizing r with
  | nil => rfl
  | cons q qs ih => rw [serve, List.length_cons, List.length_cons, ih]

theorem serve_append (r : Resolver) (qs qs' : List Request) :
    serve r (qs ++ qs') =
      ((serve r qs).1 ++ (serve (serve r qs).2 qs').1, (serve (serve r qs).2 qs').2) := by
  induction qs generalizing r with
  | nil => rfl
  | cons q qs ih => simp only [List.cons_append, serve, ih]

theorem loadedBodies_cons (q : Request) (qs : List Request) (answer : Response) (answers : List Response) :
    loadedBodies (q :: qs) (answer :: answers) =
      if isLoaded (q, answer) then q.body :: loadedBodies qs answers else loadedBodies qs answers := by
  simp only [loadedBodies, List.zip_cons_cons, List.filter_cons]
  split <;> simp

/-- Later requests do not matter for what was loaded. -/
theorem loadedBodies_serve_append (r : Resolver) (qs qs' : List Request) :
    loadedBodies qs (serve r (qs ++ qs')).1 = loadedBodies qs (serve r qs).1 := by
  have hzip : (qs ++ []).zip ((serve r qs).1 ++ (serve (serve r qs).2 qs').1) =
      qs.zip (serve r qs).1 ++ [].zip (serve (serve r qs).2 qs').1 :=
    List.zip_append (length_answers r qs).symm
  rw [List.append_nil, List.zip_nil_left, List.append_nil] at hzip
  rw [serve_append, loadedBodies, hzip, loadedBodies]

/-- A request is answered from what the requests before it left. -/
theorem answer_at (r : Resolver) (before : List Request) (q : Request) (after : List Request) :
    (serve r (before ++ q :: after)).1[before.length]? = some (respond (serve r before).2 q).1 := by
  rw [serve_append, ← length_answers r before, List.getElem?_append_right (Nat.le_refl _), Nat.sub_self]
  rfl

/-- **After a series of requests** the loaded bodies are merged over the first resolver, and nothing else. -/
theorem replays_serve (r : Resolver) (qs : List Request) :
    Replays r (loadedBodies qs (serve r qs).1) (serve r qs).2 := by
  induction qs generalizing r with
  | nil => exact .nil r
  | cons q qs ih =>
    simp only [serve]
    rw [loadedBodies_cons]
    -- the rest is served from what this request left
    rcases respond_cases r q with ⟨hno, hkept⟩ | ⟨text, file, htext, hfile, hload, hl, hrespond⟩
    · rw [hno, if_neg Bool.false_ne_true, hkept]
      exact ih r
    · have hloaded : isLoaded (q, loadedAnswer (r.extend file)) = true := by
        rw [isLoaded, hl]
        rfl
      rw [hrespond, if_pos hloaded]
      exact .cons htext hfile hload (ih (r.extend file))

/-- **Histories.** After a series of requests the resolver is the first one with the loaded bodies merged over it. At
each request `q` of the series the answer is that of a service that has loaded just the bodies loaded before; the
resolver changes only if `q` loads units, and the answer then tells how many names are loaded. -/
theorem serve_history (r : Resolver) (qs : List Request) :
    Replays r (loadedBodies qs (serve r qs).1) (serve r qs).2 ∧
      ∀ before q after, qs = before ++ q :: after →
        ∃ s answer, Replays r (loadedBodies before (serve r qs).1) s ∧
          (serve r qs).1[before.length]? = some answer ∧ (serve s [q]).1 = [answer] ∧
          (isLoaded (q, answer) = false → (serve s [q]).2 = s) ∧
          (isLoaded (q, answer) = true →
            Replays r (loadedBodies (before ++ [q]) (serve r qs).1) (serve s [q]).2 ∧
              answer = loadedAnswer (serve s [q]).2) := by
  refine ⟨replays_serve r qs, ?_⟩
  rintro before q after rfl
  have hbefore : Replays r (loadedBodies before (serve r (before ++ q :: after)).1) (serve r before).2 := by
    rw [loadedBodies_serve_append]
    exact replays_serve r before
  have hthrough : Replays r (loadedBodies (before ++ [q]) (serve r (before ++ q :: after)).1)
      (serve (serve r before).2 [q]).2 := by
    have hreplays := replays_serve r (before ++ [q])
    rw [List.append_cons before q after, loadedBodies_serve_append]
    rwa [serve_append r before [q]] at hreplays ⊢
  exact ⟨(serve r before).2, (respond (serve r before).2 q).1, hbefore, answer_at r before q after, rfl,
    respond_of_not_isLoaded, fun hyes => ⟨hthrough, respond_of_isLoaded hyes⟩⟩

/-- A file that breaks off is refused. Of the two others the second one says what the name of both is, and a source is
read with both of them. -/
theorem serve_history_refused :
    let r : Resolver := ⟨.empty, .english, {}⟩
    let first : Request := ⟨"POST", "/units", none, "\x7b\"units\": \x7b\"m\": null, \"s\": null\x7d\x7d".toUTF8⟩
    let broken : Request := ⟨"POST", "/units", none, "\x7b\"units\": \x7b\"s\": \"m\"\x7d".toUTF8⟩
    let second : Request := ⟨"POST", "/units", none, "\x7b\"units\": \x7b\"m\": \"s\"\x7d\x7d".toUTF8⟩
    let squared : Request := ⟨"POST", "/parse", some "application/json", "\x7b\"source\": \"s²\"\x7d".toUTF8⟩
    let answers := (serve r [first, broken, second, squared]).1
    answers.map Response.status = [200, 400, 200, 200] ∧
      (∃ s, Replays r [first.body] s ∧ answers[0]? = some (loadedAnswer s) ∧ s.system.get? "m" = some .base) ∧
      (∃ s, Replays r [first.body, second.body] s ∧ answers[2]? = some (loadedAnswer s)) ∧
      ∃ s, Replays r [first.body, second.body] s ∧ answers[3]? = (serve s [squared]).1[0]? ∧
        (serve s [squared]).2 = s ∧ s.system.get? "m" = some (.synonym "s") ∧ s.system.get? "s" = some .base := by
  intro r first broken second squared answers
  have hstatuses : answers.map Response.status = [200, 400, 200, 200] := by decide +kernel
  have hload {q : Request} {answer : Response} (i : Nat) (hq : q.isLoad = true) (hanswer : answers[i]? = some answer)
      (hstatus : (answers.map Response.status)[i]? = some 200) : isLoaded (q, answer) = true := by
    rw [List.getElem?_map, hanswer] at hstatus
    have hok : answer.status = 200 := Option.some.inj hstatus
    rw [isLoaded, hok, hq]
    rfl
  have hmetres : UnitSystemFile.unitsOf? "\x7b\"units\": \x7b\"m\": null, \"s\": null\x7d\x7d" =
      some (.ofList [("m", .base), ("s", .base)]) := by
    decide +kernel
  have hsynonym : UnitSystemFile.unitsOf? "\x7b\"units\": \x7b\"m\": \"s\"\x7d\x7d" =
      some (.ofList [("m", .synonym "s")]) := by
    decide +kernel
  obtain ⟨one, hone, hunits⟩ := exists_isFile hmetres
  obtain ⟨two, htwo, hunits'⟩ := exists_isFile hsynonym
  obtain ⟨-, hat⟩ := serve_history r [first, broken, second, squared]
  refine ⟨hstatuses, ?_, ?_, ?_⟩
  · obtain ⟨s, answer, -, hanswer, -, -, hyes⟩ := hat [] first [broken, second, squared] rfl
    have hbodies : loadedBodies [first] answers = [first.body] := by decide +kernel
    obtain ⟨hreplays, htold⟩ := hyes (hload 0 (by decide +kernel) hanswer (by rw [hstatuses]; rfl))
    rw [List.nil_append, hbodies] at hreplays
    refine ⟨_, hreplays, hanswer.trans (congrArg some htold), ?_⟩
    rw [(hreplays.holds (.cons hone .nil)).defined, List.map_cons, hunits]
    decide
  · obtain ⟨s, answer, -, hanswer, -, -, hyes⟩ := hat [first, broken] second [squared] rfl
    have hbodies : loadedBodies [first, broken, second] answers = [first.body, second.body] := by decide +kernel
    obtain ⟨hreplays, htold⟩ := hyes (hload 2 (by decide +kernel) hanswer (by rw [hstatuses]; rfl))
    rw [List.cons_append, List.cons_append, List.nil_append, hbodies] at hreplays
    exact ⟨_, hreplays, hanswer.trans (congrArg some htold)⟩
  · obtain ⟨s, answer, hreplays, hanswer, hsame, hkept, -⟩ := hat [first, broken, second] squared [] rfl
    have hbodies : loadedBodies [first, broken, second] answers = [first.body, second.body] := by decide +kernel
    have hother : squared.isLoad = false := by decide +kernel
    have hno : isLoaded (squared, answer) = false := by rw [isLoaded, hother, Bool.false_and]
    rw [hbodies] at hreplays
    have hdefined := (hreplays.holds (.cons hone (.cons htwo .nil))).defined
    rw [List.map_cons, List.map_cons, hunits, hunits'] at hdefined
    refine ⟨s, hreplays, hanswer.trans (by rw [hsame]; rfl), hkept hno, ?_, ?_⟩
    · rw [hdefined]
      decide
    · rw [hdefined]
      decide

end Http
end Dimensional
