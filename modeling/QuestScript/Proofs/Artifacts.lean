import Mathlib.Data.List.Basic
import QuestScript.Command

/-!
# The artifacts of a batch

The artifacts of a script are named after the script, and a script after the file of its source,
whatever folder that is in and whatever its extension is. So two scripts of a batch may share their
names, and then they share their artifacts as well. The main statement, `write_images_last`, says
what is in the files in the end: the image and the local variables of the last script of that name
that has been compiled. Each script has files of its own unless a later one takes them over, which
nothing reports (`same_stem_loses_image`).
-/

namespace QuestScript

/-- The contents of files, by their paths. -/
abbrev Contents := String → Option (List UInt8)

/-- Access to files of which only the contents count. Everything can be written. -/
def Contents.files : Files (StateM Contents) where
  read path := do
    match (← get) path with
    | some content => pure (.ok content)
    | none => pure (.error .missing)
  write path content := do
    modify fun contents => Function.update contents path (some content)
    pure (.ok ())
  makeFolder _ := pure (.ok ())

/-- In a folder different files have different paths. -/
theorem Path.join_inj {folder file file' : String} :
    Path.join folder file = Path.join folder file' ↔ file = file' := by
  unfold Path.join
  split <;> simp [String.append_right_inj]

/-! ### Writing -/

namespace Command

/-- The contents behind the writing of one more artifact. -/
def put (folder : String) (contents : Contents) (artifact : Artifact) : Contents :=
  Function.update contents (Path.join folder artifact.file) (some artifact.content)

variable {folder file : String} {contents : Contents}

theorem run_write_artifacts (context : String) (artifacts : List Artifact) :
    (writeArtifacts Contents.files folder context artifacts).run contents =
      (.ok (), artifacts.foldl (put folder) contents) := by
  induction artifacts generalizing contents with
  | nil => rfl
  | cons artifact artifacts ih => exact ih

/-- Other artifacts leave a file as it is. -/
theorem foldl_put_of_ne {artifacts : List Artifact}
    (h : ∀ artifact ∈ artifacts, artifact.file ≠ file) :
    artifacts.foldl (put folder) contents (Path.join folder file) =
      contents (Path.join folder file) := by
  induction artifacts generalizing contents with
  | nil => rfl
  | cons artifact artifacts ih =>
      obtain ⟨hfile, hfiles⟩ := List.forall_mem_cons.1 h
      rw [List.foldl_cons, ih hfiles, put,
        Function.update_of_ne fun heq => hfile (Path.join_inj.1 heq).symm]

/-- A file holds what has been written to it last. -/
theorem foldl_put_last {before after : List Artifact} {content : List UInt8}
    (h : ∀ later ∈ after, later.file ≠ file) :
    (before ++ ⟨file, content⟩ :: after).foldl (put folder) contents (Path.join folder file) =
      some content := by
  rw [List.foldl_append, List.foldl_cons, foldl_put_of_ne h, put, Function.update_self]

end Command

/-! ### The scripts of a batch -/

namespace Batch

variable {env : Environment} {mode : Mode} {warnings : WarningsMode} {batch batch' : Batch}

/-- The script that a source becomes, unless it has errors. -/
def compiled? (env : Environment) (mode : Mode) (warnings : WarningsMode) (source : Source) :
    Option CompiledScript :=
  let compilation := compileSource env mode warnings source
  match compilation.outcome with
  | .ok program => if compilation.log.isGood then some ⟨source.name, program⟩ else none
  | .error _ => none

theorem name_of_compiled? {source : Source} {script : CompiledScript}
    (h : compiled? env mode warnings source = some script) : script.name = source.name := by
  unfold compiled? at h
  dsimp only at h
  split at h
  · split at h
    · cases h
      rfl
    · cases h
  · cases h

theorem scripts_add {source : Source} (h : add env warnings batch source = .ok batch') :
    batch'.mode = batch.mode ∧
      batch'.scripts = batch.scripts ++ (compiled? env batch.mode warnings source).toList := by
  unfold add at h
  unfold compiled?
  dsimp only at h ⊢
  split at h
  · split at h <;> cases h <;> simp_all
  · cases h
    simp_all
  · cases h
    simp_all
  · cases h

/-- A batch has the scripts without errors, in the order of their sources. -/
theorem scripts_of_adding {sources : List Source}
    (h : sources.foldlM (add env warnings) batch = .ok batch') :
    batch'.mode = batch.mode ∧
      batch'.scripts = batch.scripts ++ sources.filterMap (compiled? env batch.mode warnings) := by
  induction sources generalizing batch with
  | nil =>
      cases h
      exact ⟨rfl, (List.append_nil _).symm⟩
  | cons source sources ih =>
      rw [List.foldlM_cons] at h
      cases hadd : add env warnings batch source with
      | error error =>
          rw [hadd] at h
          cases h
      | ok middle =>
          rw [hadd] at h
          obtain ⟨hmode, hscripts⟩ := scripts_add hadd
          obtain ⟨hmode', hscripts'⟩ := ih h
          refine ⟨hmode'.trans hmode, ?_⟩
          rw [hscripts', hscripts, hmode, List.append_assoc]
          cases hcompiled : compiled? env batch.mode warnings source with
          | none => rw [List.filterMap_cons_none hcompiled, Option.toList_none, List.nil_append]
          | some script =>
              rw [List.filterMap_cons_some hcompiled, Option.toList_some, List.singleton_append]

theorem run_eq_ok {sources : List Source} (h : run env mode warnings sources = .ok batch) :
    batch.mode = mode ∧ batch.scripts = sources.filterMap (compiled? env mode warnings) :=
  scripts_of_adding h

/-- The artifacts of one script. -/
def imagesOf (mode : Mode) (script : CompiledScript) : List Artifact :=
  (if mode = .localsOnly then [] else [⟨script.name ++ ".bin", script.program.bytes⟩]) ++
    [Artifact.ofText (script.name ++ ".locals") script.program.locals.write]

theorem images_eq (batch : Batch) : batch.images = batch.scripts.flatMap (imagesOf batch.mode) :=
  rfl

/-- The extensions keep images and local variables apart, whatever the names. -/
theorem image_ne_locals (name name' : String) : name ++ ".bin" ≠ name' ++ ".locals" := by
  intro heq
  have hlast := congrArg (fun text : String => text.toList.getLast?) heq
  have himage : ".bin".toList.getLast? = some 'n' := by decide
  have hlocals : ".locals".toList.getLast? = some 's' := by decide
  simp only [String.toList_append, List.getLast?_append, himage, hlocals, Option.some_or] at hlast
  exact absurd hlast (by decide)

/-- Scripts of other names have other artifacts. -/
theorem file_ne_of_mem_flat_map (mode : Mode) {scripts : List CompiledScript} {name : String}
    (h : ∀ script ∈ scripts, script.name ≠ name) :
    ∀ artifact ∈ scripts.flatMap (imagesOf mode),
      artifact.file ≠ name ++ ".bin" ∧ artifact.file ≠ name ++ ".locals" := by
  intro artifact hartifact
  obtain ⟨script, hscript, hartifact⟩ := List.mem_flatMap.1 hartifact
  have hname := h script hscript
  rcases List.mem_append.1 hartifact with himage | hlocals
  · split at himage
    · cases himage
    · obtain rfl := List.mem_singleton.1 himage
      exact ⟨fun heq => hname (String.append_left_inj _ |>.1 heq), image_ne_locals _ _⟩
  · obtain rfl := List.mem_singleton.1 hlocals
    exact ⟨(image_ne_locals _ _).symm, fun heq => hname (String.append_left_inj _ |>.1 heq)⟩

end Batch

/-! ### What is in the files -/

section Emission

open Batch Command

/-- Once the artifacts of a batch have been written, the files of a name hold the image and the
local variables of the last script of that name without errors. So a script keeps the files that it
has been given unless a later source of the same name is compiled as well. -/
theorem write_images_last {env : Environment} {mode : Mode} {warnings : WarningsMode}
    {before after : List Source} {source : Source} {script : CompiledScript} {batch : Batch}
    (hrun : Batch.run env mode warnings (before ++ source :: after) = .ok batch)
    (hcompiled : compiled? env mode warnings source = some script)
    (hlast : ∀ later ∈ after, later.name = source.name → compiled? env mode warnings later = none)
    (folder context : String) (contents : Contents) :
    ∃ written,
      (writeArtifacts Contents.files folder context batch.images).run contents =
        (.ok (), written) ∧
      (mode ≠ .localsOnly →
        written (Path.join folder (source.name ++ ".bin")) = some script.program.bytes) ∧
      written (Path.join folder (source.name ++ ".locals")) =
        some (Text.encodeUtf8 script.program.locals.write) := by
  obtain ⟨hmode, hscripts⟩ := run_eq_ok hrun
  have hothers : ∀ other ∈ after.filterMap (compiled? env mode warnings),
      other.name ≠ source.name := by
    intro other hother heq
    obtain ⟨later, hlater, hsome⟩ := List.mem_filterMap.1 hother
    rw [hlast later hlater ((name_of_compiled? hsome).symm.trans heq)] at hsome
    cases hsome
  -- Nothing that is written later goes by the name of one of the two files.
  have hfiles := file_ne_of_mem_flat_map mode hothers
  have hname := name_of_compiled? hcompiled
  refine ⟨_, run_write_artifacts context _, ?_⟩
  rw [images_eq, hscripts, hmode, List.filterMap_append, List.filterMap_cons_some hcompiled,
    List.flatMap_append, List.flatMap_cons, imagesOf, ← hname]
  rw [← hname] at hfiles
  constructor
  · intro himage
    rw [if_neg himage, List.append_assoc, List.singleton_append, List.singleton_append,
      Artifact.ofText]
    refine foldl_put_last (List.forall_mem_cons.2
      ⟨?_, fun artifact hartifact => (hfiles artifact hartifact).1⟩)
    exact (image_ne_locals script.name script.name).symm
  · rw [List.append_assoc, ← List.append_assoc, List.singleton_append, Artifact.ofText]
    exact foldl_put_last fun artifact hartifact => (hfiles artifact hartifact).2

/-- Between two scripts of one name another script keeps its image. -/
theorem door_keeps_image :
    let key : Source := ⟨"key", "begin key\nend\n"⟩
    let door : Source := ⟨"door", "begin door\nreturn\nend\n"⟩
    let key' : Source := ⟨"key", "begin key\nshort used\nend\n"⟩
    ∃ batch program written, Batch.run {} .script .normal ([key] ++ door :: [key']) = .ok batch ∧
      compiled? {} .script .normal door = some ⟨"door", program⟩ ∧
      (writeArtifacts Contents.files "out" "" batch.images).run (fun _ => none) =
        (.ok (), written) ∧
      written (Path.join "out" (door.name ++ ".bin")) = some program.bytes := by
  intro key door key'
  let program : Program := { name := "door", code := [0xC8000014] }
  let batch : Batch := { scripts := [⟨"key", { name := "key" }⟩, ⟨"door", program⟩,
    ⟨"key", { name := "key", locals := { shorts := ["used"] } }⟩] }
  have hrun : Batch.run {} .script .normal ([key] ++ door :: [key']) = .ok batch := by
    decide +kernel
  have hdoor : compiled? {} .script .normal door = some ⟨"door", program⟩ := by decide +kernel
  have hlast : ∀ later ∈ [key'], later.name = door.name →
      compiled? {} .script .normal later = none := by
    intro later hlater heq
    obtain rfl := List.mem_singleton.1 hlater
    exact absurd heq (by decide)
  obtain ⟨written, hwritten, himage, -⟩ := write_images_last hrun hdoor hlast "out" "" fun _ => none
  exact ⟨batch, program, written, hrun, hdoor, hwritten, himage (by decide)⟩

theorem stem?_plain : Path.stem? "x" = some "x" := by
  have hsplit : "x".splitOn "/" = ["x"] := by
    rw [String.splitOn, if_neg (by decide), String.splitOnAux, if_neg (by decide +kernel),
      if_neg (by decide +kernel), String.splitOnAux, if_pos (by decide +kernel)]
    decide +kernel
  rw [Path.stem?, Path.names, Path.steps, hsplit]
  decide

theorem stem?_extended : Path.stem? "x.s" = some "x" := by
  have hsplit : "x.s".splitOn "/" = ["x.s"] := by
    rw [String.splitOn, if_neg (by decide), String.splitOnAux, if_neg (by decide +kernel),
      if_neg (by decide +kernel), String.splitOnAux, if_neg (by decide +kernel),
      if_neg (by decide +kernel), String.splitOnAux, if_neg (by decide +kernel),
      if_neg (by decide +kernel), String.splitOnAux, if_pos (by decide +kernel)]
    decide +kernel
  rw [Path.stem?, Path.names, Path.steps, hsplit]
  decide

/-- Two files whose names differ in the extension only make sources of the same name. Both are
compiled without any problem, but the image of the first is lost. -/
theorem same_stem_loses_image :
    let inputs := [("x", "begin x\nend\n"), ("x.s", "begin x\nreturn\nend\n")]
    ∃ sources batch script written,
      inputs.mapM (fun input => sourceOf? input.1 (Text.encodeUtf8 input.2)) = some sources ∧
      Batch.run {} .script .normal sources = .ok batch ∧
      batch.failed = [] ∧ batch.diagnostics = [] ∧ script ∈ batch.scripts ∧
      (writeArtifacts Contents.files "out" "" batch.images).run (fun _ => none) =
        (.ok (), written) ∧
      written (Path.join "out" (script.name ++ ".bin")) ≠ some script.program.bytes := by
  intro inputs
  have hsources : inputs.mapM (fun input => sourceOf? input.1 (Text.encodeUtf8 input.2)) =
      some [⟨"x", "begin x\nend\n"⟩, ⟨"x", "begin x\nreturn\nend\n"⟩] := by
    simp only [inputs, List.mapM_cons, List.mapM_nil, sourceOf?, stem?_plain, stem?_extended]
    decide +kernel
  let first : CompiledScript := ⟨"x", { name := "x" }⟩
  let second : CompiledScript := ⟨"x", { name := "x", code := [0xC8000014] }⟩
  refine ⟨_, { scripts := [first, second] }, first, _, hsources, ?_, rfl, rfl, ?_,
    run_write_artifacts _ _, ?_⟩
  · decide +kernel
  · decide
  · decide +kernel

end Emission

end QuestScript
