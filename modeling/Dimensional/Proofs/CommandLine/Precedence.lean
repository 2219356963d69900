import Dimensional.CommandLine.Outcome
import Dimensional.Proofs.CommandLine.Traversal
import Dimensional.Proofs.Json.Decoding
import Dimensional.Proofs.Resolver.Layers
import Mathlib

/-!
# Precedence of loaded files

On a command line units come from the base units, from the files below a directory and from single files, and wordings
from all these files and from a message catalog. `UnitReadings` says what is read of unit system files and in which
order, and `Flawed` when something of it cannot be used.

`foldlM_perform_eq_ok_iff` is the run of all steps for unit system files. The main statement is `loads_in_layers`: either
loading fails, or each name is defined and each kind of problem worded by the last layer that does so.
-/

namespace Dimensional
namespace CommandLine

variable {α : Type} {files : Files} {options : UnitOptions}

/-! ### What is read -/

/-- What is read at a place: a text, or why there is none. -/
abbrev Reading := Except FileFault String

/-- The name of a leaf ends like that of a unit system file. It is the last name on the way to the leaf, and has to be a
text; a root that is a file has its own path. -/
def endsInSuffix (root : String) (names : List FileName) : Bool :=
  (names.getLast?.elim (some root) FileName.text?).any (·.endsWith LoadStep.suffix)

/-- What is read of a leaf below a root: a regular file whose name ends like a unit system file, or a directory that
cannot be listed. -/
def leafReading? (root : String) (leaf : FileTree.Leaf) : Option Reading :=
  match leaf.2 with
  | .file text => if endsInSuffix root leaf.1 then some (.ok text) else none
  | .sealedFile fault => if endsInSuffix root leaf.1 then some (.error fault) else none
  | .sealedDirectory fault => some (.error fault)
  | .link _ | .directory _ => none

inductive DirectoryReadings (files : Files) (path : String) : List Reading → Prop
  | unlisted (fault : FileFault) : files.find path = .error fault → DirectoryReadings files path [.error fault]
  | listed (tree : FileTree) (leaves : List FileTree.Leaf) : files.find path = .ok tree →
    DepthFirst [] tree leaves → DirectoryReadings files path (leaves.filterMap (leafReading? path))

/-- What is read of unit system files: first below the directory, then the single files in their order. -/
inductive UnitReadings (files : Files) (options : UnitOptions) : List Reading → Prop
  | single : options.directory = none → UnitReadings files options (options.files.map files.read)
  | below (path : String) (inside : List Reading) : options.directory = some path →
    DirectoryReadings files path inside → UnitReadings files options (inside ++ options.files.map files.read)

/-- A text was read, and it is the one of a value. -/
def Gives (decode : String → Except Json.Fault α) (reading : Reading) (value : α) : Prop :=
  ∃ text, reading = .ok text ∧ decode text = .ok value

/-- No text was read, or it cannot be decoded. -/
def Broken (decode : String → Except Json.Fault α) (reading : Reading) : Prop :=
  (∃ fault, reading = .error fault) ∨ ∃ text fault, reading = .ok text ∧ decode text = .error fault

section Gives

variable {decode : String → Except Json.Fault α} {reading : Reading} {value other : α}

theorem Gives.unique (h : Gives decode reading value) (h' : Gives decode reading other) : value = other := by
  obtain ⟨text, rfl, hvalue⟩ := h
  obtain ⟨_, hread, hother⟩ := h'
  cases hread
  exact Except.ok.inj (hvalue.symm.trans hother)

theorem Gives.not_broken (h : Gives decode reading value) : ¬ Broken decode reading := by
  obtain ⟨text, rfl, hvalue⟩ := h
  rintro (⟨fault, hread⟩ | ⟨_, fault, hread, hfault⟩)
  · cases hread
  · cases hread
    rw [hvalue] at hfault
    cases hfault

theorem gives_or_broken (decode : String → Except Json.Fault α) (reading : Reading) :
    (∃ value, Gives decode reading value) ∨ Broken decode reading := by
  cases reading with
  | error fault => exact .inr (.inl ⟨fault, rfl⟩)
  | ok text =>
    cases hvalue : decode text with
    | ok value => exact .inl ⟨value, text, rfl, hvalue⟩
    | error fault => exact .inr (.inr ⟨text, fault, rfl, hvalue⟩)

theorem forall₂_gives_or_broken (decode : String → Except Json.Fault α) (readings : List Reading) :
    (∃ values, List.Forall₂ (Gives decode) readings values) ∨ ∃ reading ∈ readings, Broken decode reading := by
  induction readings with
  | nil => exact .inl ⟨[], .nil⟩
  | cons reading readings ih =>
    rcases gives_or_broken decode reading with ⟨value, hvalue⟩ | hbroken
    · rcases ih with ⟨values, hvalues⟩ | ⟨later, hmem, hbroken⟩
      · exact .inl ⟨value :: values, .cons hvalue hvalues⟩
      · exact .inr ⟨later, List.mem_cons_of_mem _ hmem, hbroken⟩
    · exact .inr ⟨reading, List.mem_cons_self, hbroken⟩

theorem not_broken_of_forall₂ {readings : List Reading} {values : List α}
    (h : List.Forall₂ (Gives decode) readings values) : ∀ reading ∈ readings, ¬ Broken decode reading := by
  induction h with
  | nil => exact fun _ hmem => absurd hmem List.not_mem_nil
  | cons hvalue _ ih => exact List.forall_mem_cons.mpr ⟨hvalue.not_broken, ih⟩

theorem forall₂_gives_unique {readings : List Reading} {values others : List α}
    (h : List.Forall₂ (Gives decode) readings values) (h' : List.Forall₂ (Gives decode) readings others) :
    values = others :=
  List.right_unique_forall₂' (R := Gives decode) (fun _ _ _ => Gives.unique) h h'

end Gives

theorem map_units_of_gives {texts : List String} {loaded : List UnitSystemFile} {systems : List UnitSystem}
    (h : List.Forall₂ (Gives UnitSystemFile.ofText) (texts.map .ok) loaded)
    (hsystems : texts.map UnitSystemFile.unitsOf? = systems.map some) : loaded.map (·.units) = systems := by
  have hloaded : texts.map UnitSystemFile.unitsOf? = (loaded.map (·.units)).map some := by
    clear hsystems
    induction texts generalizing loaded with
    | nil => cases h; rfl
    | cons text texts ih =>
      obtain ⟨file, others, ⟨_, ⟨⟩, hfile⟩, hothers, rfl⟩ := List.forall₂_cons_left_iff.mp h
      rw [List.map_cons, ih hothers, UnitSystemFile.unitsOf?_eq_some_iff.mpr ⟨file, hfile, rfl⟩]
      rfl
  exact (List.map_injective_iff.mpr (Option.some_injective _)) (hloaded.symm.trans hsystems)

/-! ### Steps -/

/-- A step that loads unit definitions, with what is read for it. -/
inductive Loads : LoadStep → Reading → Prop
  | units (path : String) (reading : Reading) : Loads (.units path reading) reading
  | unlisted (path : String) (fault : FileFault) : Loads (.unlisted path fault) (.error fault)

variable {r after : Resolver} {step : LoadStep} {reading : Reading}

/-- **One step**: it lays a unit system file over the resolver, unless it cannot be read or has too many names. -/
theorem Loads.perform_eq_ok_iff (h : Loads step reading) : LoadStep.perform r step = .ok after ↔
    ∃ file, Gives UnitSystemFile.ofText reading file ∧ ¬ r.Overfull file.units ∧ after = r.extend file := by
  cases h with
  | unlisted path fault => simp [LoadStep.perform, Gives]
  | units path reading =>
    cases reading with
    | error fault => simp [LoadStep.perform, Gives]
    | ok text =>
      have hadd : LoadStep.perform r (.units path (.ok text)) = .ok after ↔ r.addText text = .ok after := by
        rw [LoadStep.perform]
        cases r.addText text <;> simp [Except.mapError]
      rw [hadd, Resolver.addText_eq_ok_iff]
      simp [Gives]

/-- **All steps**: they lay all files over the resolver, unless one cannot be read or together they have too many
names. -/
theorem foldlM_perform_eq_ok_iff {steps : List LoadStep} {readings : List Reading}
    (h : List.Forall₂ Loads steps readings) (hr : r.system.size ≤ r.limits.systemEntries) :
    steps.foldlM LoadStep.perform r = .ok after ↔
      ∃ loaded, List.Forall₂ (Gives UnitSystemFile.ofText) readings loaded ∧
        (namesOfAll (r.system :: loaded.map (·.units))).card ≤ r.limits.systemEntries ∧
        after = r.extendAll loaded := by
  induction h generalizing r with
  | nil =>
    simp only [List.foldlM_nil, Json.pure_eq_ok_iff, List.forall₂_nil_left_iff, exists_eq_left, List.map_nil]
    rw [namesOfAll_singleton, NameMap.card_keys]
    simp [hr, Resolver.extendAll, eq_comm]
  | @cons step reading steps readings hstep hrest ih =>
    rw [List.foldlM_cons, Json.bind_eq_ok_iff]
    constructor
    · rintro ⟨mid, hmid, hafter⟩
      obtain ⟨file, hfile, hfits, rfl⟩ := hstep.perform_eq_ok_iff.mp hmid
      obtain ⟨loaded, hloaded, hcard, rfl⟩ := (ih (Resolver.not_overfull_iff.mp hfits)).mp hafter
      refine ⟨file :: loaded, .cons hfile hloaded, ?_, rfl⟩
      rwa [List.map_cons, ← Resolver.namesOfAll_extend]
    · rintro ⟨_, hall, hcard, rfl⟩
      obtain ⟨file, loaded, hfile, hloaded, rfl⟩ := List.forall₂_cons_left_iff.mp hall
      rw [List.map_cons, ← Resolver.namesOfAll_extend] at hcard
      have hsize : (r.extend file).system.size ≤ r.limits.systemEntries := by
        rw [← NameMap.card_keys, ← namesOfAll_singleton]
        exact (Finset.card_le_card (namesOfAll_mono (by simp))).trans hcard
      exact ⟨r.extend file, hstep.perform_eq_ok_iff.mpr ⟨file, hfile, Resolver.not_overfull_iff.mpr hsize, rfl⟩,
        (ih hsize).mpr ⟨loaded, hloaded, hcard, rfl⟩⟩

/-! ### Steps for the options -/

theorem loads_ofLeaf (root : String) (leaf : FileTree.Leaf) :
    Option.Rel Loads (LoadStep.ofLeaf? root leaf) (leafReading? root leaf) := by
  obtain ⟨names, tree⟩ := leaf
  have hname : LoadStep.isUnitSystem (LoadStep.leafName root names) = endsInSuffix root names :=
    LoadStep.isUnitSystem_leafName root names
  cases tree with
  | file text =>
    simp only [LoadStep.ofLeaf?, leafReading?, hname]
    split
    · exact .some (.units _ (.ok text))
    · exact .none
  | sealedFile fault =>
    simp only [LoadStep.ofLeaf?, leafReading?, hname]
    split
    · exact .some (.units _ (.error fault))
    · exact .none
  | sealedDirectory fault => exact .some (.unlisted _ fault)
  | link target => exact .none
  | directory entries => exact .none

theorem exists_directoryReadings (files : Files) (path : String) :
    ∃ readings, DirectoryReadings files path readings ∧
      List.Forall₂ Loads (LoadStep.ofDirectory files path) readings := by
  cases hfind : files.find path with
  | error fault =>
    refine ⟨[.error fault], .unlisted fault hfind, ?_⟩
    simp only [LoadStep.ofDirectory, hfind]
    exact .cons (.unlisted path fault) .nil
  | ok tree =>
    refine ⟨_, .listed tree tree.walk hfind (tree.depthFirst_walkFrom []), ?_⟩
    simp only [LoadStep.ofDirectory, hfind]
    have hwalk : List.Forall₂ Eq tree.walk tree.walk := List.forall₂_same.mpr fun _ _ => rfl
    refine List.rel_filterMap ?_ hwalk
    rintro leaf _ rfl
    exact loads_ofLeaf path leaf

def unitSteps (files : Files) (options : UnitOptions) : List LoadStep :=
  options.directory.toList.flatMap (LoadStep.ofDirectory files) ++
    options.files.map fun path => .units path (files.read path)

theorem exists_unitReadings (files : Files) (options : UnitOptions) :
    ∃ readings, UnitReadings files options readings ∧ List.Forall₂ Loads (unitSteps files options) readings := by
  have hfiles : List.Forall₂ Loads (options.files.map fun path => .units path (files.read path))
      (options.files.map files.read) := by
    rw [List.forall₂_map_left_iff, List.forall₂_map_right_iff]
    exact List.forall₂_same.mpr fun path _ => .units path (files.read path)
  cases hdirectory : options.directory with
  | none =>
    refine ⟨_, .single hdirectory, ?_⟩
    simpa [unitSteps, hdirectory] using hfiles
  | some path =>
    obtain ⟨inside, hinside, hloads⟩ := exists_directoryReadings files path
    refine ⟨_, .below path inside hdirectory hinside, ?_⟩
    simpa [unitSteps, hdirectory] using List.rel_append hloads hfiles

/-- **One order of reading** where names in the directory differ. -/
theorem UnitReadings.unique {readings others : List Reading} (h : UnitReadings files options readings)
    (h' : UnitReadings files options others)
    (hnames : ∀ path ∈ options.directory, ∀ tree, files.find path = .ok tree → NamesDiffer tree) :
    readings = others := by
  cases h with
  | single hnone =>
    cases h' with
    | single => rfl
    | below path inside hsome hinside => simp [hnone] at hsome
  | below path inside hsome hinside =>
    cases h' with
    | single hnone => simp [hnone] at hsome
    | below path' inside' hsome' hinside' =>
      obtain rfl : path = path' := Option.some.inj (hsome.symm.trans hsome')
      have hpath := hnames path hsome
      cases hinside with
      | unlisted fault hfind =>
        cases hinside' with
        | unlisted fault' hfind' => cases hfind.symm.trans hfind'; rfl
        | listed tree leaves hfind' hleaves => cases hfind.symm.trans hfind'
      | listed tree leaves hfind hleaves =>
        cases hinside' with
        | unlisted fault hfind' => cases hfind.symm.trans hfind'
        | listed tree' leaves' hfind' hleaves' =>
          cases hfind.symm.trans hfind'
          rw [hleaves.unique (hpath tree hfind) hleaves']

/-! ### Loading -/

def baseUnits (options : UnitOptions) : UnitSystem :=
  if options.noDefaultUnits then NameMap.empty else UnitSystem.si

/-- Something that is to be loaded cannot be read or decoded, or some load makes the names too many. -/
inductive Flawed (files : Files) (options : UnitOptions) (readings : List Reading) : Prop
  | units (reading : Reading) : reading ∈ readings → Broken UnitSystemFile.ofText reading →
    Flawed files options readings
  | messages (path : String) : path ∈ options.messages → Broken MessageCatalog.ofText (files.read path) →
    Flawed files options readings
  | names (n : Nat) (loaded : List UnitSystemFile) :
    List.Forall₂ (Gives UnitSystemFile.ofText) (readings.take n) loaded →
    Resolver.standard.limits.systemEntries < (namesOfAll (baseUnits options :: loaded.map (·.units))).card →
    Flawed files options readings

/-- A resolver with unit system files over the base units, and a message catalog over them. -/
structure Layered (options : UnitOptions) (loaded : List UnitSystemFile) (catalog : Option MessageCatalog)
    (r : Resolver) : Prop where
  defined : ∀ name, r.system.get? name = lastGiven (·.get? name) (baseUnits options :: loaded.map (·.units))
  worded : ∀ id, r.messages.text id =
    (lastGiven (·.override id) (loaded.map (·.messages) ++ catalog.toList)).getD id.defaultText
  limits : r.limits = Resolver.standard.limits

theorem initialResolver_eq (options : UnitOptions) :
    initialResolver options = ⟨baseUnits options, .english, Resolver.standard.limits⟩ := by
  rw [initialResolver, baseUnits]
  split <;> rfl

theorem size_baseUnits_le (options : UnitOptions) :
    (baseUnits options).size ≤ Resolver.standard.limits.systemEntries := by
  rw [baseUnits]
  split <;> decide

/-- The step for a message catalog lays it over the resolver, unless it cannot be read. -/
theorem perform_messages_eq_ok_iff {r after : Resolver} (path : String) (reading : Reading) :
    LoadStep.perform r (.messages path reading) = .ok after ↔
      ∃ catalog, Gives MessageCatalog.ofText reading catalog ∧ after = r.addMessages catalog := by
  cases reading with
  | error fault => simp [LoadStep.perform, Gives]
  | ok text =>
    rw [LoadStep.perform]
    cases hcatalog : MessageCatalog.ofText text with
    | error fault => simp [Gives, hcatalog]
    | ok catalog => simp [Gives, hcatalog, eq_comm]

/-- The steps for the message catalog come last. -/
theorem foldlM_messages_eq_ok_iff {r after : Resolver} (files : Files) (messages : Option String) :
    (messages.toList.map fun path => LoadStep.messages path (files.read path)).foldlM LoadStep.perform r = .ok after ↔
      ∃ catalog, Option.Rel (Gives MessageCatalog.ofText) (messages.map files.read) catalog ∧
        after = catalog.toList.foldl Resolver.addMessages r := by
  cases messages with
  | none =>
    simp only [Option.toList_none, List.map_nil, List.foldlM_nil, Json.pure_eq_ok_iff, Option.map_none]
    constructor
    · rintro rfl
      exact ⟨none, .none, rfl⟩
    · rintro ⟨_, ⟨⟩, rfl⟩
      rfl
  | some path =>
    simp only [Option.toList_some, List.map_cons, List.map_nil, List.foldlM_cons, List.foldlM_nil, bind_pure,
      perform_messages_eq_ok_iff, Option.map_some]
    constructor
    · rintro ⟨catalog, hcatalog, rfl⟩
      exact ⟨some catalog, .some hcatalog, rfl⟩
    · rintro ⟨_, ⟨hcatalog⟩, rfl⟩
      exact ⟨_, hcatalog, rfl⟩

/-- **A whole load**: all that was read is a file, the names fit, and the message catalog is one too. -/
theorem load_eq_ok_iff {readings : List Reading} {r : Resolver}
    (h : List.Forall₂ Loads (unitSteps files options) readings) :
    load files options = .ok r ↔
      ∃ loaded catalog, List.Forall₂ (Gives UnitSystemFile.ofText) readings loaded ∧
        Option.Rel (Gives MessageCatalog.ofText) (options.messages.map files.read) catalog ∧
        (namesOfAll (baseUnits options :: loaded.map (·.units))).card ≤ Resolver.standard.limits.systemEntries ∧
        r = catalog.toList.foldl Resolver.addMessages ((initialResolver options).extendAll loaded) := by
  have hinitial : (initialResolver options).system.size ≤ (initialResolver options).limits.systemEntries := by
    rw [initialResolver_eq]
    exact size_baseUnits_le options
  have hunits (mid : Resolver) :
      (unitSteps files options).foldlM LoadStep.perform (initialResolver options) = .ok mid ↔ _ :=
    foldlM_perform_eq_ok_iff h hinitial
  have hsteps : LoadStep.ofOptions files options = unitSteps files options ++
      options.messages.toList.map fun path => .messages path (files.read path) := rfl
  rw [load, hsteps, List.foldlM_append, Json.bind_eq_ok_iff]
  simp only [foldlM_messages_eq_ok_iff, hunits]
  rw [initialResolver_eq]
  constructor
  · rintro ⟨_, ⟨loaded, hloaded, hcard, rfl⟩, catalog, hcatalog, rfl⟩
    exact ⟨loaded, catalog, hloaded, hcatalog, hcard, rfl⟩
  · rintro ⟨loaded, catalog, hloaded, hcatalog, hcard, rfl⟩
    exact ⟨_, ⟨loaded, hloaded, hcard, rfl⟩, catalog, hcatalog, rfl⟩

/-- The files over the base units, and the catalog over them. -/
theorem layered_extendAll (options : UnitOptions) (loaded : List UnitSystemFile) (catalog : Option MessageCatalog) :
    Layered options loaded catalog
      (catalog.toList.foldl Resolver.addMessages ((initialResolver options).extendAll loaded)) := by
  have hdefined (name : String) : ((initialResolver options).extendAll loaded).system.get? name =
      lastGiven (·.get? name) (baseUnits options :: loaded.map (·.units)) := by
    rw [Resolver.get?_extendAll, initialResolver_eq]
  have hoverride (id : MessageId) : ((initialResolver options).extendAll loaded).messages.override id =
      lastGiven (·.override id) (loaded.map (·.messages)) := by
    rw [Resolver.override_extendAll, initialResolver_eq, lastGiven_cons]
    exact Option.or_none
  have hlimits : ((initialResolver options).extendAll loaded).limits = Resolver.standard.limits := by
    rw [Resolver.limits_extendAll, initialResolver_eq]
  cases catalog with
  | none => exact ⟨hdefined, fun id => by simp [MessageCatalog.text, hoverride], hlimits⟩
  | some catalog =>
    refine ⟨hdefined, fun id => ?_, hlimits⟩
    have hmerge : (((initialResolver options).extendAll loaded).addMessages catalog).messages.override id =
        (catalog.override id).or (lastGiven (·.override id) (loaded.map (·.messages))) := by
      rw [← hoverride]
      exact MessageCatalog.override_merge _ catalog id
    simp [MessageCatalog.text, hmerge]

/-- The names of the first files are among those of all files. -/
theorem card_names_take_le (options : UnitOptions) {readings : List Reading} {loaded first : List UnitSystemFile}
    {n : Nat} (h : List.Forall₂ (Gives UnitSystemFile.ofText) readings loaded)
    (hfirst : List.Forall₂ (Gives UnitSystemFile.ofText) (readings.take n) first) :
    (namesOfAll (baseUnits options :: first.map (·.units))).card ≤
      (namesOfAll (baseUnits options :: loaded.map (·.units))).card := by
  obtain rfl : first = loaded.take n := forall₂_gives_unique hfirst (List.forall₂_take n h)
  exact Finset.card_le_card (namesOfAll_mono (List.cons_subset_cons _ (List.map_subset _ (List.take_subset n loaded))))

theorem rel_gives_or_broken (files : Files) (messages : Option String) :
    (∃ catalog, Option.Rel (Gives MessageCatalog.ofText) (messages.map files.read) catalog) ∨
      ∃ path ∈ messages, Broken MessageCatalog.ofText (files.read path) := by
  cases messages with
  | none => exact .inl ⟨none, .none⟩
  | some path =>
    rcases gives_or_broken MessageCatalog.ofText (files.read path) with ⟨catalog, hcatalog⟩ | hbroken
    · exact .inl ⟨some catalog, .some hcatalog⟩
    · exact .inr ⟨path, rfl, hbroken⟩

theorem flawed_of_error {readings : List Reading} {fault : CommandFault}
    (h : List.Forall₂ Loads (unitSteps files options) readings) (hfault : load files options = .error fault) :
    Flawed files options readings := by
  rcases forall₂_gives_or_broken UnitSystemFile.ofText readings with ⟨loaded, hloaded⟩ | ⟨reading, hmem, hbroken⟩
  · rcases rel_gives_or_broken files options.messages with ⟨catalog, hcatalog⟩ | ⟨path, hpath, hbroken⟩
    · refine .names readings.length loaded (by rwa [List.take_length]) (Nat.lt_of_not_le fun hfit => ?_)
      have hok := (load_eq_ok_iff h).mpr ⟨loaded, catalog, hloaded, hcatalog, hfit, rfl⟩
      rw [hfault] at hok
      cases hok
    · exact .messages path hpath hbroken
  · exact .units reading hmem hbroken

theorem not_flawed_of_ok {readings : List Reading} {r : Resolver}
    (h : List.Forall₂ Loads (unitSteps files options) readings) (hok : load files options = .ok r) :
    ¬ Flawed files options readings := by
  obtain ⟨loaded, catalog, hloaded, hcatalog, hfit, -⟩ := (load_eq_ok_iff h).mp hok
  rintro (⟨reading, hmem, hbroken⟩ | ⟨path, hpath, hbroken⟩ | ⟨n, first, hfirst, hmany⟩)
  · exact not_broken_of_forall₂ hloaded reading hmem hbroken
  · rw [hpath] at hcatalog
    cases hcatalog with
    | some hgives => exact hgives.not_broken hbroken
  · exact Nat.not_lt.mpr ((card_names_take_le options hloaded hfirst).trans hfit) hmany

/-- **When loading fails.** -/
theorem load_eq_error_iff {readings : List Reading} (h : List.Forall₂ Loads (unitSteps files options) readings) :
    (∃ fault, load files options = .error fault) ↔ Flawed files options readings := by
  constructor
  · rintro ⟨fault, hfault⟩
    exact flawed_of_error h hfault
  · intro hflawed
    cases hload : load files options with
    | error fault => exact ⟨fault, rfl⟩
    | ok r => exact absurd hflawed (not_flawed_of_ok h hload)

/-- What comes of loading the unit system files that were read, and the message catalog. -/
structure LoadsInLayers (files : Files) (options : UnitOptions) (readings : List Reading) : Prop where
  /-- It fails exactly if something is wrong with what was read. -/
  fails_iff : (∃ fault, load files options = .error fault) ↔ Flawed files options readings
  /-- A command that is to be carried out then fails too, and has no answer. -/
  silent : ∀ words command fault, Invocation.ofWords words = .run options command →
    load files options = .error fault → (run files words).exit = 1 ∧ (run files words).stdout = ""
  /-- Otherwise all that was read is in the resolver, in its order. -/
  layered : ∀ r, load files options = .ok r → ∃ loaded catalog,
    List.Forall₂ (Gives UnitSystemFile.ofText) readings loaded ∧
      Option.Rel (Gives MessageCatalog.ofText) (options.messages.map files.read) catalog ∧
      Layered options loaded catalog r

/-- **Loading puts layers over each other.** The unit system files that the options name are read in one order, depth
first below the directory and then as they are given. Loading fails if one of them or the message catalog cannot be used
or the names become too many. Otherwise the last layer that defines a name or words a kind of problem counts. -/
theorem loads_in_layers (files : Files) (options : UnitOptions) :
    ∃ readings, UnitReadings files options readings ∧
      ((∀ path ∈ options.directory, ∀ tree, files.find path = .ok tree → NamesDiffer tree) →
        ∀ others, UnitReadings files options others → others = readings) ∧
      LoadsInLayers files options readings := by
  obtain ⟨readings, hreadings, hloads⟩ := exists_unitReadings files options
  refine ⟨readings, hreadings, fun hnames others hothers => hothers.unique hreadings hnames, ?_, ?_, ?_⟩
  · exact load_eq_error_iff hloads
  · intro words command fault hwords hfault
    have hrun : run files words = .failed fault.report := by
      rw [run, hwords]
      simp [hfault]
    rw [hrun]
    exact ⟨rfl, rfl⟩
  · intro r hr
    obtain ⟨loaded, catalog, hloaded, hcatalog, -, rfl⟩ := (load_eq_ok_iff hloads).mp hr
    exact ⟨loaded, catalog, hloaded, hcatalog, layered_extendAll options loaded catalog⟩

/-- Of a name in the base units and in two files of a directory the later file counts, of one in a directory and a
single file the single file. Links are left out, and so are names that are no texts. A single file that breaks off stops
the command. -/
theorem loads_in_layers_workspace :
    let inside : FileTree := .directory [
      (.ofText "b.units.json", .file "\x7b\"units\": \x7b\"m\": \"kg\", \"v\": null\x7d\x7d"),
      (.ofText "a", .directory [(.ofText "c.units.json", .file "\x7b\"units\": \x7b\"m\": null\x7d\x7d")]),
      (.ofText "link.units.json", .link (.ok (.file "\x7b"))),
      (⟨0xFF :: (FileName.ofText ".units.json").bytes⟩, .file "\x7b")]
    let files : Files := .ofTree (.directory [(.ofText "d", inside), (.ofText "broken.json", .file "\x7b\"units\":"),
      (.ofText "one.json", .file "\x7b\"units\": \x7b\"v\": \"m\"\x7d\x7d")])
    (∃ r, load files ⟨["one.json"], some "d", none, false⟩ = .ok r ∧ r.system.get? "m" = some (.synonym "kg") ∧
      r.system.get? "v" = some (.synonym "m") ∧ r.system.get? "kg" = some (.synonym "SI.kilogram")) ∧
      (run files ["--dir", "d", "-u", "broken.json", "list"]).exit = 1 ∧
      (run files ["--dir", "d", "-u", "broken.json", "list"]).stdout = "" := by
  intro inside files
  have hinside : files.find "d" = .ok inside := by cbv
  constructor
  · obtain ⟨readings, -, hunique, hload⟩ := loads_in_layers files ⟨["one.json"], some "d", none, false⟩
    have hnames : NamesDiffer inside := by
      have ha : NamesDiffer (.directory [(.ofText "c.units.json", .file "\x7b\"units\": \x7b\"m\": null\x7d\x7d")]) :=
        .directory (by decide +kernel) (List.forall_mem_singleton.mpr (.file _))
      exact .directory (by decide +kernel) (List.forall_mem_cons.mpr ⟨.file _, List.forall_mem_cons.mpr ⟨ha,
        List.forall_mem_cons.mpr ⟨.link _, List.forall_mem_singleton.mpr (.file _)⟩⟩⟩)
    have hfound : ∀ path ∈ some "d", ∀ tree, files.find path = .ok tree → NamesDiffer tree := by
      rintro path ⟨⟩ tree htree
      cases hinside.symm.trans htree
      exact hnames
    have hall := hunique hfound _ (.below "d" _ rfl (.listed inside _ hinside (inside.depthFirst_walkFrom [])))
    have hread : inside.walk.filterMap (leafReading? "d") ++ ["one.json"].map files.read =
        ["\x7b\"units\": \x7b\"m\": null\x7d\x7d", "\x7b\"units\": \x7b\"m\": \"kg\", \"v\": null\x7d\x7d",
          "\x7b\"units\": \x7b\"v\": \"m\"\x7d\x7d"].map .ok := by
      cbv
    obtain rfl : _ = readings := hread.symm.trans hall
    obtain ⟨r, hok⟩ : ∃ r, load files ⟨["one.json"], some "d", none, false⟩ = .ok r := by
      have hsome : (load files ⟨["one.json"], some "d", none, false⟩).toOption.isSome = true := by cbv
      cases hload : load files ⟨["one.json"], some "d", none, false⟩ with
      | error fault => simp [hload, Except.toOption] at hsome
      | ok r => exact ⟨r, rfl⟩
    obtain ⟨loaded, catalog, hloaded, -, hlayered⟩ := hload.layered r hok
    have hunits : loaded.map (·.units) = [.ofList [("m", .base)], .ofList [("m", .synonym "kg"), ("v", .base)],
        .ofList [("v", .synonym "m")]] :=
      map_units_of_gives hloaded (by decide +kernel)
    have hdefined := hlayered.defined
    rw [hunits] at hdefined
    refine ⟨r, hok, ?_, ?_, ?_⟩
    · rw [hdefined]
      decide +kernel
    · rw [hdefined]
      decide +kernel
    · rw [hdefined]
      decide +kernel
  · obtain ⟨readings, hreadings, -, hload⟩ := loads_in_layers files ⟨["broken.json"], some "d", none, false⟩
    have hmem : files.read "broken.json" ∈ readings := by
      cases hreadings with
      | single hnone => cases hnone
      | below path inside hsome hinside => simp
    have hbroken : Broken UnitSystemFile.ofText (files.read "broken.json") := by
      have hread : files.read "broken.json" = .ok "\x7b\"units\":" := by cbv
      have hnone : UnitSystemFile.unitsOf? "\x7b\"units\":" = none := by decide +kernel
      obtain ⟨fault, hfault⟩ := UnitSystemFile.unitsOf?_eq_none_iff.mp hnone
      exact .inr ⟨_, fault, hread, hfault⟩
    obtain ⟨fault, hfault⟩ := hload.fails_iff.mpr (.units _ hmem hbroken)
    exact hload.silent _ .list fault (by decide +kernel) hfault

end CommandLine
end Dimensional
