import Dimensional.CommandLine.Outcome
import Dimensional.Proofs.Http.Posting
import Dimensional.Proofs.Resolution.Place
import Mathlib.Data.List.TFAE

/-!
# One verdict behind all answers

The units of a source can be asked for in a program, on a command line in three forms, and over HTTP. All answers are
views of one verdict on the source (`Resolver.verdict`): it has units, or it is refused because it is too long or has
problems. The same holds of the comparison of two sources (`Resolver.comparison`), which is refused for the left one if
both are to be refused.

The main statement is `entry_points_agree`.
-/

namespace Dimensional

/-! ### Verdicts -/

/-- Why a source has no units. -/
inductive Refusal where
  /-- It has more characters than the limit allows. -/
  | tooLong (limit length : Nat)
  /-- It has at least one problem. Some units were found in spite of that. -/
  | faulty (found : Dimension) (first : Diagnostic) (more : List Diagnostic)
deriving DecidableEq

/-- What there is to say about a source. -/
inductive Verdict where
  | resolved (units : Dimension)
  | refused (refusal : Refusal)
deriving DecidableEq

/-- The verdict on a source. Of a source that is too long only the length counts. -/
def Resolver.verdict (r : Resolver) (source : String) : Verdict :=
  if r.limits.sourceChars < source.length then .refused (.tooLong r.limits.sourceChars source.length)
  else
    let parse := Parse.ofSource source
    let evaluation := Evaluation.of r.system parse.expression
    match (parse.problems ++ evaluation.problems).map r.messages.diagnose with
    | [] => .resolved evaluation.units
    | first :: more => .refused (.faulty evaluation.units first more)

/-- What there is to say about two sources: the units of both, or the source that is refused. -/
inductive Comparison where
  | compared (left right : Dimension)
  | refused (source : String) (refusal : Refusal)

/-- The comparison of two sources. If both are refused, the left one is told. -/
def Resolver.comparison (r : Resolver) (left right : String) : Comparison :=
  match r.verdict left, r.verdict right with
  | .refused refusal, _ => .refused left refusal
  | .resolved _, .refused refusal => .refused right refusal
  | .resolved leftUnits, .resolved rightUnits => .compared leftUnits rightUnits

/-! ### Views of verdicts -/

/-- What is printed as JSON about a source. -/
def sourceReport (source : String) (units : Dimension) (diagnostics : List Diagnostic) : Json :=
  .object [("diagnostics", .list (diagnostics.map Diagnostic.toJson)), ("display", .string units.display),
    ("ok", .bool diagnostics.isEmpty), ("source", .string source), ("units", units.toJson)]

namespace Refusal

variable (render : String → List Diagnostic → String) (source : String)

/-- A refusal in a program. The diagnostics are marked in the source by `render`. -/
def failure : Refusal → Failure
  | .tooLong limit length => .limitExceeded (.sourceChars limit length)
  | .faulty _ first more => .invalidUnits ⟨source, render source (first :: more), first :: more⟩

/-- A refusal on a command line: an exit code of 1, and a message or, in JSON, the diagnostics. -/
def onTerminal (form : CommandLine.Form) (refusal : Refusal) : CommandLine.Outcome :=
  match form, refusal with
  | .json, .faulty found first more => ⟨1, (sourceReport source found (first :: more)).pretty ++ "\n", ""⟩
  | .plain, refusal => .failed (refusal.failure MarkStyle.plain.render source).message
  | _, refusal => .failed (refusal.failure MarkStyle.pointed.render source).report

def overHttp (refusal : Refusal) : Http.Response :=
  let message := ("error", Json.string (refusal.failure render source).message)
  match refusal with
  | .tooLong .. => ⟨413, .json (.object [message])⟩
  | .faulty _ first more =>
    ⟨422, .json (.object [("diagnostics", .list ((first :: more).map Diagnostic.toJson)), message])⟩

end Refusal

namespace Verdict

variable (source : String)

/-- The whole resolution of a source with a given expression. -/
def asResolution (expression : Expression) : Verdict → Except Failure Resolution
  | .resolved units => .ok ⟨source, expression, units, []⟩
  | .refused (.faulty found first more) => .ok ⟨source, expression, found, first :: more⟩
  | .refused (.tooLong limit length) => .error (.limitExceeded (.sourceChars limit length))

def inProgram (render : String → List Diagnostic → String) : Verdict → Except Failure Dimension
  | .resolved units => .ok units
  | .refused refusal => .error (refusal.failure render source)

def onTerminal (form : CommandLine.Form) : Verdict → CommandLine.Outcome
  | .resolved units =>
    match form with
    | .json => ⟨0, (sourceReport source units []).pretty ++ "\n", ""⟩
    | _ => ⟨0, units.display ++ "\n", ""⟩
  | .refused refusal => refusal.onTerminal source form

def overHttp : Verdict → Http.Response
  | .resolved units =>
    ⟨200, .json (.object [("display", .string units.display), ("source", .string source), ("units", units.toJson)])⟩
  | .refused refusal => refusal.overHttp MarkStyle.plain.render source

end Verdict

namespace Comparison

def inProgram : Comparison → Except Failure Bool
  | .compared left right => .ok (left == right)
  | .refused source refusal => .error (refusal.failure MarkStyle.pointed.render source)

def onTerminal (left right : String) : Comparison → CommandLine.Outcome
  | .compared l r =>
    if l = r then
      ⟨0, "✓ '" ++ left ++ "' and '" ++ right ++ "' have the same dimensions: " ++ l.display ++ "\n", ""⟩
    else
      ⟨1, "✗ '" ++ left ++ "' and '" ++ right ++ "' differ\n  " ++ left ++ ": " ++ l.display ++ "\n  " ++ right ++
        ": " ++ r.display ++ "\n", ""⟩
  | .refused source refusal => refusal.onTerminal source .report

def overHttp : Comparison → Http.Response
  | .compared left right =>
    ⟨200, .json (.object [("equivalent", .bool (left == right)), ("left", .string left.display),
      ("right", .string right.display)])⟩
  | .refused source refusal => refusal.overHttp MarkStyle.pointed.render source

end Comparison

/-! ### Answers about one source -/

namespace Resolver

variable {r : Resolver} {source left right : String}

theorem resolve_eq_verdict (r : Resolver) (source : String) :
    r.resolve source = (r.verdict source).asResolution source (Parse.ofSource source).expression := by
  unfold resolve verdict
  split
  · rfl
  · rw [Resolution.of_eq]
    dsimp only
    split
    · next hnone => rw [hnone]; rfl
    · next hsome => rw [hsome]; rfl

/-- **In a program**, whatever marks the diagnostics. -/
theorem unitsWith_eq_verdict (r : Resolver) (render : String → List Diagnostic → String) (source : String) :
    r.unitsWith render source = (r.verdict source).inProgram source render := by
  rw [unitsWith, resolve_eq_verdict]
  cases r.verdict source with
  | resolved units => rfl
  | refused refusal => cases refusal <;> rfl

theorem unitsOf_eq_verdict (r : Resolver) (source : String) :
    r.unitsOf source = (r.verdict source).inProgram source MarkStyle.pointed.render :=
  unitsWith_eq_verdict r _ source

/-- **On a command line**, in each form. -/
theorem perform_parse_eq_verdict (r : Resolver) (source : String) (form : CommandLine.Form) :
    CommandLine.perform r (.parse source form) = (r.verdict source).onTerminal source form := by
  change CommandLine.parse r source form = _
  cases form with
  | report =>
    rw [CommandLine.parse, unitsOf_eq_verdict]
    cases r.verdict source <;> rfl
  | plain =>
    rw [CommandLine.parse, unitsWith_eq_verdict]
    cases r.verdict source <;> rfl
  | json =>
    rw [CommandLine.parse, resolve_eq_verdict]
    cases r.verdict source with
    | resolved units => rfl
    | refused refusal => cases refusal <;> rfl

/-- **Over HTTP.** -/
theorem parseAnswer_eq_verdict (r : Resolver) (source : String) :
    Http.Response.ofResult (Http.parseAnswer r source) = (r.verdict source).overHttp source := by
  rw [Http.parseAnswer, unitsWith_eq_verdict]
  cases r.verdict source with
  | resolved units => rfl
  | refused refusal => cases refusal <;> rfl

/-! ### Answers about two sources -/

/-- **In a program.** -/
theorem equivalent_eq_comparison (r : Resolver) (left right : String) :
    r.equivalent left right = (r.comparison left right).inProgram := by
  rw [equivalent, unitsOf_eq_verdict, unitsOf_eq_verdict, comparison]
  cases r.verdict left with
  | refused refusal => rfl
  | resolved leftUnits => cases r.verdict right <;> rfl

/-- **On a command line.** -/
theorem perform_check_eq_comparison (r : Resolver) (left right : String) :
    CommandLine.perform r (.check left right) = (r.comparison left right).onTerminal left right := by
  change CommandLine.check r left right = _
  rw [CommandLine.check, unitsOf_eq_verdict, unitsOf_eq_verdict, comparison]
  cases r.verdict left with
  | refused refusal => cases refusal <;> rfl
  | resolved leftUnits =>
    cases r.verdict right with
    | refused refusal => cases refusal <;> rfl
    | resolved rightUnits => rfl

/-- **Over HTTP.** -/
theorem checkAnswer_eq_comparison (r : Resolver) (left right : String) :
    Http.Response.ofResult (Http.checkAnswer r left right) = (r.comparison left right).overHttp := by
  rw [Http.checkAnswer, unitsOf_eq_verdict, unitsOf_eq_verdict, comparison]
  cases r.verdict left with
  | refused refusal => cases refusal <;> rfl
  | resolved leftUnits =>
    cases r.verdict right with
    | refused refusal => cases refusal <;> rfl
    | resolved rightUnits => rfl

/-- The exit code of a comparison tells whether the units are the same. -/
theorem check_exit_eq_zero_iff (r : Resolver) (left right : String) :
    (CommandLine.perform r (.check left right)).exit = 0 ↔ r.equivalent left right = .ok true := by
  rw [perform_check_eq_comparison, equivalent_eq_comparison]
  cases r.comparison left right with
  | compared l r => by_cases h : l = r <;> simp [Comparison.onTerminal, Comparison.inProgram, h]
  | refused source refusal =>
    cases refusal <;> simp [Comparison.onTerminal, Comparison.inProgram, Refusal.onTerminal, CommandLine.Outcome.failed]

/-- A failure of the left source, or of the right one if the left one has units. -/
def FailsFirst (r : Resolver) (left right : String) (failure : Failure) : Prop :=
  r.unitsOf left = .error failure ∨ (∃ units, r.unitsOf left = .ok units) ∧ r.unitsOf right = .error failure

theorem FailsFirst.told {failure : Failure} (h : r.FailsFirst left right failure) :
    r.equivalent left right = .error failure ∧
      CommandLine.perform r (.check left right) = .failed failure.report ∧
      Http.Response.ofResult (Http.checkAnswer r left right) = .ofFailure failure := by
  change _ ∧ CommandLine.check r left right = _ ∧ _
  rw [equivalent, CommandLine.check, Http.checkAnswer]
  rcases h with hleft | ⟨⟨units, hleft⟩, hright⟩
  · rw [hleft]
    exact ⟨rfl, rfl, rfl⟩
  · rw [hleft, hright]
    exact ⟨rfl, rfl, rfl⟩

/-! ### Sources with units -/

theorem verdict_of_tooLong (h : r.limits.sourceChars < source.length) :
    r.verdict source = .refused (.tooLong r.limits.sourceChars source.length) :=
  if_pos h

/-- A source has units if it is within the limit and neither parsing nor resolving it finds a problem. -/
theorem verdict_eq_resolved_iff : (∃ units, r.verdict source = .resolved units) ↔
    source.length ≤ r.limits.sourceChars ∧ (Parse.ofSource source).problems = [] ∧
      (Evaluation.of r.system (Parse.ofSource source).expression).problems = [] := by
  unfold verdict
  split
  · next hlong => simp [Nat.not_le.mpr hlong]
  · next hshort =>
    dsimp only
    split
    · next hnone => simpa [Nat.not_lt.mp hshort] using hnone
    · next hsome =>
      have hproblem : ¬ ((Parse.ofSource source).problems = [] ∧
          (Evaluation.of r.system (Parse.ofSource source).expression).problems = []) := by
        rintro ⟨hparse, hevaluation⟩
        simp [hparse, hevaluation] at hsome
      simp [hproblem]

end Resolver

namespace Verdict

variable {v : Verdict} {source : String}

theorem inProgram_eq_ok_iff {render : String → List Diagnostic → String} :
    (∃ units, v.inProgram source render = .ok units) ↔ ∃ units, v = .resolved units := by
  cases v <;> simp [inProgram]

theorem onTerminal_exit_eq_zero_iff {form : CommandLine.Form} :
    (v.onTerminal source form).exit = 0 ↔ ∃ units, v = .resolved units := by
  cases v with
  | resolved units => cases form <;> simp [onTerminal]
  | refused refusal =>
    cases form <;> cases refusal <;> simp [onTerminal, Refusal.onTerminal, CommandLine.Outcome.failed]

theorem overHttp_status_eq_iff : (v.overHttp source).status = 200 ↔ ∃ units, v = .resolved units := by
  cases v with
  | resolved units => simp [overHttp]
  | refused refusal => cases refusal <;> simp [overHttp, Refusal.overHttp]

end Verdict

/-! ### Asking -/

namespace CommandLine

/-- A command line that carries out a command with a resolver. -/
def Carries (files : Files) (words : List String) (r : Resolver) (command : Command) : Prop :=
  ∃ options, Invocation.ofWords words = .run options command ∧ load files options = .ok r

variable {files : Files} {words : List String} {r : Resolver} {command : Command}

theorem run_of_carries (h : Carries files words r command) : run files words = perform r command := by
  obtain ⟨options, hwords, hload⟩ := h
  rw [run, hwords]
  simp [hload]

def Form.options : Form → List String
  | .report => []
  | .json => ["--json"]
  | .plain => ["--plain"]

/-- All sources can be asked for in all forms. -/
theorem carries_parse (files : Files) (source : String) (form : Form) :
    Carries files ("parse" :: (form.options ++ ["--", source])) .standard (.parse source form) := by
  cases form <;> exact ⟨⟨[], none, none, false⟩, rfl, rfl⟩

theorem carries_check (files : Files) (left right : String) :
    Carries files ["check", "--", left, right] .standard (.check left right) :=
  ⟨⟨[], none, none, false⟩, rfl, rfl⟩

end CommandLine

/-! ### Agreement -/

/-- Whoever is asked for the units of a source tells the same verdict. -/
structure Resolver.TellsOneVerdict (r : Resolver) (source : String) : Prop where
  /-- All succeed with the same sources. -/
  succeeds : ∀ (render : String → List Diagnostic → String) (form : CommandLine.Form),
    [∃ units, r.unitsOf source = .ok units, ∃ units, r.unitsWith render source = .ok units,
      (CommandLine.perform r (.parse source form)).exit = 0,
      (Http.Response.ofResult (Http.parseAnswer r source)).status = 200,
      source.length ≤ r.limits.sourceChars ∧ (Parse.ofSource source).problems = [] ∧
        (Evaluation.of r.system (Parse.ofSource source).expression).problems = []].TFAE
  /-- Of a source that is too long only the length counts. -/
  tooLong : r.limits.sourceChars < source.length →
    r.verdict source = .refused (.tooLong r.limits.sourceChars source.length)
  resolve : r.resolve source = (r.verdict source).asResolution source (Parse.ofSource source).expression
  unitsOf : r.unitsOf source = (r.verdict source).inProgram source MarkStyle.pointed.render
  unitsWith : ∀ render, r.unitsWith render source = (r.verdict source).inProgram source render
  perform : ∀ form, CommandLine.perform r (.parse source form) = (r.verdict source).onTerminal source form
  run : ∀ files words form, CommandLine.Carries files words r (.parse source form) →
    CommandLine.run files words = (r.verdict source).onTerminal source form
  parseAnswer : Http.Response.ofResult (Http.parseAnswer r source) = (r.verdict source).overHttp source
  respond : ∀ q : Http.Request, q.BringsSource source →
    Http.respond r q = ((r.verdict source).overHttp source, r)
  posted : (Http.sourceJson source).compact.utf8ByteSize ≤ Http.greatestBody →
    Http.respond r (Http.post "/parse" (Http.sourceJson source)) = ((r.verdict source).overHttp source, r)
  /-- A body that does not fit is not read. -/
  unread : Http.greatestBody < (Http.sourceJson source).compact.utf8ByteSize →
    Http.respond r (Http.post "/parse" (Http.sourceJson source)) = (Http.tooLarge, r)
  /-- The limit on bodies does not get in the way of a usual limit on sources. -/
  status : r.limits.sourceChars ≤ 349000 →
    (Http.respond r (Http.post "/parse" (Http.sourceJson source))).1.status =
      ((r.verdict source).overHttp source).status

/-- Whoever is asked to compare two sources tells the same comparison. -/
structure Resolver.TellsOneComparison (r : Resolver) (left right : String) : Prop where
  exits : (CommandLine.perform r (.check left right)).exit = 0 ↔ r.equivalent left right = .ok true
  /-- The left source is refused in preference to the right one. -/
  fails : ∀ failure, r.FailsFirst left right failure →
    r.equivalent left right = .error failure ∧
      CommandLine.perform r (.check left right) = .failed failure.report ∧
      Http.Response.ofResult (Http.checkAnswer r left right) = .ofFailure failure
  equivalent : r.equivalent left right = (r.comparison left right).inProgram
  perform : CommandLine.perform r (.check left right) = (r.comparison left right).onTerminal left right
  run : ∀ files words, CommandLine.Carries files words r (.check left right) →
    CommandLine.run files words = (r.comparison left right).onTerminal left right
  checkAnswer : Http.Response.ofResult (Http.checkAnswer r left right) = (r.comparison left right).overHttp
  respond : ∀ q : Http.Request, q.BringsPair left right → Http.respond r q = ((r.comparison left right).overHttp, r)
  posted : (Http.pairJson left right).compact.utf8ByteSize ≤ Http.greatestBody →
    Http.respond r (Http.post "/check" (Http.pairJson left right)) = ((r.comparison left right).overHttp, r)
  /-- A body that does not fit is not read, whatever is wrong with the left source. -/
  unread : Http.greatestBody < (Http.pairJson left right).compact.utf8ByteSize →
    Http.respond r (Http.post "/check" (Http.pairJson left right)) = (Http.tooLarge, r)

namespace Resolver

variable {r : Resolver} {source left right : String}

theorem respond_eq_verdict {q : Http.Request} (h : q.BringsSource source) :
    Http.respond r q = ((r.verdict source).overHttp source, r) := by
  rw [Http.respond_of_bringsSource h, parseAnswer_eq_verdict]

/-- A source whose body does not fit is too long for a usual limit, and refused in the same way. -/
theorem status_posted (h : r.limits.sourceChars ≤ 349000) :
    (Http.respond r (Http.post "/parse" (Http.sourceJson source))).1.status =
      ((r.verdict source).overHttp source).status := by
  by_cases hsize : (Http.sourceJson source).compact.utf8ByteSize ≤ Http.greatestBody
  · rw [respond_eq_verdict (Http.bringsSource_post hsize)]
  · have hbound := Http.utf8ByteSize_sourceJson source
    have hgreatest : Http.greatestBody = 2097152 := rfl
    rw [Http.respond_parse_of_tooLarge (Nat.not_le.mp hsize), verdict_of_tooLong (by omega)]
    rfl

theorem respond_eq_comparison {q : Http.Request} (h : q.BringsPair left right) :
    Http.respond r q = ((r.comparison left right).overHttp, r) := by
  rw [Http.respond_of_bringsPair h, checkAnswer_eq_comparison]

theorem tellsOneVerdict (r : Resolver) (source : String) : r.TellsOneVerdict source where
  succeeds render form := by
    refine List.tfae_of_forall (∃ units, r.verdict source = .resolved units) _ ?_
    simp only [List.forall_mem_cons, List.not_mem_nil]
    refine ⟨?_, ?_, ?_, ?_, ?_, nofun⟩
    · rw [unitsOf_eq_verdict, Verdict.inProgram_eq_ok_iff]
    · rw [unitsWith_eq_verdict, Verdict.inProgram_eq_ok_iff]
    · rw [perform_parse_eq_verdict, Verdict.onTerminal_exit_eq_zero_iff]
    · rw [parseAnswer_eq_verdict, Verdict.overHttp_status_eq_iff]
    · exact verdict_eq_resolved_iff.symm
  tooLong := verdict_of_tooLong
  resolve := resolve_eq_verdict r source
  unitsOf := unitsOf_eq_verdict r source
  unitsWith render := unitsWith_eq_verdict r render source
  perform := perform_parse_eq_verdict r source
  run files words form h := by rw [CommandLine.run_of_carries h, perform_parse_eq_verdict]
  parseAnswer := parseAnswer_eq_verdict r source
  respond q := respond_eq_verdict
  posted h := respond_eq_verdict (Http.bringsSource_post h)
  unread := Http.respond_parse_of_tooLarge
  status := status_posted

theorem tellsOneComparison (r : Resolver) (left right : String) : r.TellsOneComparison left right where
  exits := check_exit_eq_zero_iff r left right
  fails failure := FailsFirst.told
  equivalent := equivalent_eq_comparison r left right
  perform := perform_check_eq_comparison r left right
  run files words h := by rw [CommandLine.run_of_carries h, perform_check_eq_comparison]
  checkAnswer := checkAnswer_eq_comparison r left right
  respond q := respond_eq_comparison
  posted h := respond_eq_comparison (Http.bringsPair_post h)
  unread := Http.respond_check_of_tooLarge

end Resolver

/-- **All entry points agree**, as far as bodies of requests are read. In a program, on a command line and over HTTP, the
units of a source and the comparison of two sources are views of the same verdicts. -/
theorem entry_points_agree (r : Resolver) :
    (∀ source, r.TellsOneVerdict source) ∧ ∀ left right, r.TellsOneComparison left right :=
  ⟨r.tellsOneVerdict, r.tellsOneComparison⟩

/-- A good source, one with a problem and one that is too long, on a command line and over HTTP. Of two sources with
problems the left one is told. -/
theorem entry_points_agree_mole :
    let files : CommandLine.Files := .ofTree .empty
    let ask (source : String) := CommandLine.run files ("parse" :: (CommandLine.Form.json.options ++ ["--", source]))
    let post (source : String) := (Http.respond .standard (Http.post "/parse" (Http.sourceJson source))).1
    let long := String.ofList (List.replicate 1025 'm')
    ((ask "mol").exit = 0 ∧ (post "mol").status = 200) ∧ ((ask "mol^").exit = 1 ∧ (post "mol^").status = 422) ∧
      ((ask long).exit = 1 ∧ (post long).status = 413) ∧
      (CommandLine.run files ["check", "--", "mol^2", "mol²"]).exit = 0 ∧
      ∃ failure, Resolver.standard.unitsOf "mol^" = .error failure ∧
        Resolver.standard.equivalent "mol^" "^" = .error failure ∧
        (Http.respond .standard (Http.post "/check" (Http.pairJson "mol^" "^"))).1 = .ofFailure failure := by
  intro files ask post long
  obtain ⟨hsource, hpair⟩ := entry_points_agree .standard
  have hask : ∀ source, ask source = (Resolver.standard.verdict source).onTerminal source .json := fun source =>
    (hsource source).run files _ .json (CommandLine.carries_parse files source .json)
  have hpost : ∀ source, (post source).status = ((Resolver.standard.verdict source).overHttp source).status :=
    fun source => (hsource source).status (by decide)
  have hgood : Resolver.standard.verdict "mol" = .resolved (.base "mol" 1) := by decide +kernel
  have hbad : Resolver.standard.verdict "mol^" = .refused (.faulty (.base "mol" 1)
      ⟨⟨.numberRequired, ⟨4, 4⟩, .none⟩, "Number is required"⟩ []) := by decide +kernel
  have hlength : long.length = 1025 := by rw [String.length_ofList, List.length_replicate]
  have hlong := (hsource long).tooLong (by rw [hlength]; decide)
  refine ⟨⟨?_, ?_⟩, ⟨?_, ?_⟩, ⟨?_, ?_⟩, ?_, ?_⟩
  · rw [hask, hgood]
    rfl
  · rw [hpost, hgood]
    rfl
  · rw [hask, hbad]
    rfl
  · rw [hpost, hbad]
    rfl
  · rw [hask, hlong]
    rfl
  · rw [hpost, hlong]
    rfl
  · rw [CommandLine.run_of_carries (CommandLine.carries_check files "mol^2" "mol²"), (hpair "mol^2" "mol²").exits]
    decide +kernel
  · have hleft := (hsource "mol^").unitsOf
    rw [hbad] at hleft
    obtain ⟨htold, -, hanswer⟩ := (hpair "mol^" "^").fails _ (.inl hleft)
    refine ⟨_, hleft, htold, ?_⟩
    have hbound := (Http.utf8ByteSize_pairJson "mol^" "^").2
    have hfits : (Http.pairJson "mol^" "^").compact.utf8ByteSize ≤ Http.greatestBody :=
      Nat.le_trans hbound (by decide)
    rw [(hpair "mol^" "^").posted hfits, ← (hpair "mol^" "^").checkAnswer, hanswer]

/-- A body that does not fit hides what is wrong with the left source. In a program and on a command line that is told
all the same. -/
theorem left_untold_in_oversized_body :
    let long := String.ofList (List.replicate Http.greatestBody 'm')
    (∃ failure, Http.Response.statusOf failure = 422 ∧ Resolver.standard.unitsOf "mol^" = .error failure ∧
      Resolver.standard.equivalent "mol^" long = .error failure ∧
      CommandLine.run (.ofTree .empty) ["check", "--", "mol^", long] = .failed failure.report) ∧
      (Http.respond .standard (Http.post "/check" (Http.pairJson "mol^" long))).1 = Http.tooLarge ∧
      Http.tooLarge.status = 413 := by
  intro long
  have hbad : Resolver.standard.verdict "mol^" = .refused (.faulty (.base "mol" 1)
      ⟨⟨.numberRequired, ⟨4, 4⟩, .none⟩, "Number is required"⟩ []) := by decide +kernel
  have hleft := Resolver.unitsOf_eq_verdict .standard "mol^"
  rw [hbad] at hleft
  have hfails : Resolver.standard.FailsFirst "mol^" long _ := .inl hleft
  obtain ⟨hequivalent, hperform, -⟩ := hfails.told
  refine ⟨⟨_, rfl, hleft, hequivalent, ?_⟩, ?_, rfl⟩
  · rw [CommandLine.run_of_carries (CommandLine.carries_check _ "mol^" long), hperform]
  · have hbound := (Http.utf8ByteSize_pairJson "mol^" long).1
    have hlong : long.length = Http.greatestBody := by rw [String.length_ofList, List.length_replicate]
    have hshort : "mol^".length = 4 := by decide
    rw [Http.respond_check_of_tooLarge (by omega)]

end Dimensional
