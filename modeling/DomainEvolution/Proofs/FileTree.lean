import DomainEvolution.Command.Files
import DomainEvolution.Proofs.FirstFailure
import Mathlib.Data.String.Basic

/-!
# Paths and writes in a tree of files

A path leads step by step from directory to directory. A file can be written exactly where the way
leads through and does not end in a directory, and then the write changes what is found at the end
of the path and nothing else: all places on the way down to it were directories before.
-/

namespace DomainEvolution.Command

namespace Location

/-- The place to which one step of a path leads. -/
def next (location : Location) (step : String) : Location :=
  if step = "" ∨ step = "." then location
  else if step = ".." then location.parent
  else location.child step

/-- The way down leads through a place exactly if its steps come first. -/
theorem leadsTo_iff {location other : Location} :
    location.leadsTo other = true ↔
      location.anchor = other.anchor ∧ location.steps <+: other.steps := by
  simp [leadsTo]

/-- The way down to a child leads through the parent. -/
theorem eq_or_leadsTo_of_child {location other : Location} {step : String}
    (h : other.leadsTo (location.child step) = true) :
    other = location.child step ∨ other.leadsTo location = true := by
  obtain ⟨hanchor, hsteps⟩ := leadsTo_iff.mp h
  rcases List.prefix_concat_iff.mp hsteps with hsame | hshorter
  · left
    obtain ⟨anchor, steps⟩ := other
    obtain rfl : steps = location.steps ++ [step] := hsame
    obtain rfl : anchor = location.anchor := hanchor
    rfl
  · exact Or.inr (leadsTo_iff.mpr ⟨hanchor, hshorter⟩)

/-- The way down to a parent that is no anchor is the beginning of the way down to the child; an
anchor has no way down but itself. -/
theorem eq_or_leadsTo_of_parent {location other : Location}
    (h : other.leadsTo location.parent = true) :
    other = location.parent ∨ other ≠ location ∧ other.leadsTo location = true := by
  obtain ⟨hanchor, hsteps⟩ := leadsTo_iff.mp h
  match location with
  | ⟨.above levels, []⟩ | ⟨.top, []⟩ =>
    left
    obtain ⟨anchor, steps⟩ := other
    obtain rfl : steps = [] := List.prefix_nil.mp hsteps
    obtain rfl : anchor = _ := hanchor
    rfl
  | ⟨anchor, step :: steps⟩ =>
    right
    have hparent : parent ⟨anchor, step :: steps⟩ = ⟨anchor, (step :: steps).dropLast⟩ := by
      cases anchor <;> rfl
    rw [hparent] at hanchor hsteps
    refine ⟨?_, leadsTo_iff.mpr ⟨hanchor, hsteps.trans (List.dropLast_prefix _)⟩⟩
    rintro rfl
    have hlength := hsteps.length_le
    rw [List.length_dropLast, List.length_cons] at hlength
    omega

end Location

section Steps

variable (front step rest : List Char) (steps : List String)

/-- A slash ends the step that is being read; any other character belongs to it. -/
theorem splitOnAux_slash_cons (c : Char) :
    String.splitOnAux (.ofList (front ++ step ++ c :: rest)) "/" ⟨String.utf8Len front⟩
        ⟨String.utf8Len front + String.utf8Len step⟩ 0 steps =
      if c = '/' then
        String.splitOnAux (.ofList (front ++ step ++ c :: rest)) "/"
          ⟨String.utf8Len front + String.utf8Len step + c.utf8Size⟩
          ⟨String.utf8Len front + String.utf8Len step + c.utf8Size⟩ 0 (.ofList step :: steps)
      else
        String.splitOnAux (.ofList (front ++ step ++ c :: rest)) "/" ⟨String.utf8Len front⟩
          ⟨String.utf8Len front + String.utf8Len step + c.utf8Size⟩ 0 steps := by
  have hend := mt (String.atEnd_of_valid (front ++ step) (c :: rest)).mp (List.cons_ne_nil c rest)
  have hget := String.get_of_valid (front ++ step) (c :: rest)
  have hnext := String.next_of_valid (front ++ step) c rest
  have hstep := String.extract_of_valid front step (c :: rest)
  rw [String.utf8Len_append] at hend hget hnext
  rw [String.splitOnAux, if_neg hend, hget, List.headD_cons,
    show String.Pos.Raw.get "/" 0 = '/' from rfl]
  by_cases hslash : c = '/'
  · subst hslash
    have hback : String.Pos.Raw.unoffsetBy
        ⟨String.utf8Len front + String.utf8Len step + '/'.utf8Size⟩
        (String.Pos.Raw.next "/" 0) = ⟨String.utf8Len front + String.utf8Len step⟩ := rfl
    simp only [beq_self_eq_true, if_true]
    rw [if_pos (by decide), hnext, hback, hstep]
  · have hstay : String.Pos.Raw.unoffsetBy ⟨String.utf8Len front + String.utf8Len step⟩ 0 =
        ⟨String.utf8Len front + String.utf8Len step⟩ := rfl
    rw [if_neg (mt beq_iff_eq.mp hslash), if_neg hslash, hstay, hnext]

/-- The reading of a path between two of its characters: the steps before are there, latest first,
and one step is being read. -/
theorem splitOnAux_slash :
    String.splitOnAux (.ofList (front ++ step ++ rest)) "/" ⟨String.utf8Len front⟩
        ⟨String.utf8Len front + String.utf8Len step⟩ 0 steps =
      steps.reverse ++ (rest.splitOnPPrepend (· == '/') step.reverse).map .ofList := by
  induction rest generalizing front step steps with
  | nil =>
    have hend := (String.atEnd_of_valid (front ++ step) []).mpr rfl
    rw [String.utf8Len_append] at hend
    rw [String.splitOnAux, if_pos hend, String.extract_of_valid front step []]
    simp
  | cons c rest ih =>
    rw [splitOnAux_slash_cons, List.splitOnPPrepend_cons_eq_if]
    by_cases hslash : c = '/'
    · have hrest := ih (front ++ step ++ [c]) [] (.ofList step :: steps)
      simpa [hslash, Nat.add_assoc] using hrest
    · have hrest := ih front (step ++ [c]) steps
      simpa [hslash, Nat.add_assoc] using hrest

end Steps

/-- The steps of a path are what stands between its slashes. -/
theorem splitOn_slash (path : String) :
    path.splitOn "/" = (path.toList.splitOn '/').map .ofList := by
  rw [String.splitOn, if_neg (by decide)]
  simpa [List.splitOn] using splitOnAux_slash [] [] path.toList []

namespace Files

/-- The steps of a path lead from one place to another. Every step starts in a directory. -/
inductive Leads (files : Files) : Location → List String → Location → Prop
  | stop {location : Location} : Leads files location [] location
  | step {location target : Location} {step : String} {steps : List String}
      (hdirectory : files.find? location = some .directory)
      (h : Leads files (location.next step) steps target) :
      Leads files location (step :: steps) target

/-- A path leads to a place. -/
def Reaches (files : Files) (path : String) (target : Location) : Prop :=
  Leads files (startOf path) (path.splitOn "/") target

/-- Why no step can start at a place. -/
inductive Blocks (files : Files) (location : Location) : FileFault → Prop
  | missing (h : files.find? location = none) : Blocks files location .notFound
  | file {content : ByteArray} (h : files.find? location = some (.file content)) :
      Blocks files location .notDirectory

/-- Why no file can be written at a path: it leads to a directory, or below something that is
missing or below a file. -/
inductive Barred (files : Files) (path : String) : Prop
  | directory {location : Location} (h : files.Reaches path location)
      (hdirectory : files.find? location = some .directory)
  | belowMissing {before after : List String} {step : String} {location : Location}
      (hsplit : path.splitOn "/" = before ++ step :: after)
      (h : Leads files (startOf path) before location) (hmissing : files.find? location = none)
  | belowFile {before after : List String} {step : String} {location : Location}
      {content : ByteArray} (hsplit : path.splitOn "/" = before ++ step :: after)
      (h : Leads files (startOf path) before location)
      (hfile : files.find? location = some (.file content))

variable {files : Files} {path : String} {location target : Location} {content : ByteArray}

/-! ### Paths are followed -/

/-- Following a step from a directory. -/
theorem follow_cons_of_directory (hdirectory : files.find? location = some .directory)
    (step : String) (steps : List String) :
    files.follow location (step :: steps) = files.follow (location.next step) steps := by
  simp only [follow, hdirectory, Location.next]
  split
  · rfl
  · split <;> rfl

/-- A step that starts in no directory is not followed. -/
theorem follow_cons_of_blocks {fault : FileFault} (h : files.Blocks location fault)
    (step : String) (steps : List String) :
    files.follow location (step :: steps) = .error fault := by
  cases h with
  | missing h => simp only [follow, h]
  | file h => simp only [follow, h]

/-- No directory stands in the way of a step. -/
theorem Blocks.ne_directory {fault : FileFault} (h : files.Blocks location fault) :
    files.find? location ≠ some .directory := by
  cases h with
  | missing h => simp [h]
  | file h => simp [h]

/-- A step is blocked for one reason. -/
theorem Blocks.unique {fault fault' : FileFault} (h : files.Blocks location fault)
    (h' : files.Blocks location fault') : fault = fault' := by
  have hfollow := follow_cons_of_blocks h "" []
  rw [follow_cons_of_blocks h'] at hfollow
  exact (Except.error.inj hfollow).symm

/-- At each place, either a step can start or something stands in its way. -/
theorem directory_or_blocks (files : Files) (location : Location) :
    files.find? location = some .directory ∨ ∃ fault, files.Blocks location fault := by
  match hfind : files.find? location with
  | none => exact Or.inr ⟨_, .missing hfind⟩
  | some (.file content) => exact Or.inr ⟨_, .file hfind⟩
  | some .directory => exact Or.inl rfl

/-- Steps are followed to the place to which they lead. -/
theorem follow_eq_ok_iff {steps : List String} :
    files.follow location steps = .ok target ↔ files.Leads location steps target := by
  induction steps generalizing location with
  | nil =>
    constructor
    · intro h
      cases h
      exact .stop
    · intro h
      cases h
      rfl
  | cons step steps ih =>
    rcases files.directory_or_blocks location with hdirectory | ⟨fault, hblocks⟩
    · rw [follow_cons_of_directory hdirectory, ih]
      constructor
      · exact .step hdirectory
      · intro h
        cases h with
        | step _ h => exact h
    · rw [follow_cons_of_blocks hblocks]
      constructor
      · intro h
        cases h
      · intro h
        cases h with
        | step hdirectory _ => exact absurd hdirectory hblocks.ne_directory

/-- Steps are not followed to the end if one of them cannot start where those before it lead. -/
theorem follow_eq_error_iff {steps : List String} {fault : FileFault} :
    files.follow location steps = .error fault ↔ ∃ before step after stop,
      steps = before ++ step :: after ∧ files.Leads location before stop ∧
        files.Blocks stop fault := by
  induction steps generalizing location with
  | nil => simp [follow]
  | cons first steps ih =>
    rcases files.directory_or_blocks location with hdirectory | ⟨fault', hblocks⟩
    · rw [follow_cons_of_directory hdirectory, ih]
      constructor
      · rintro ⟨before, step, after, stop, rfl, hleads, hblocks⟩
        exact ⟨first :: before, step, after, stop, rfl, .step hdirectory hleads, hblocks⟩
      · rintro ⟨before, step, after, stop, hsplit, hleads, hblocks⟩
        cases hleads with
        | stop => exact absurd hdirectory hblocks.ne_directory
        | step _ hleads =>
          obtain ⟨rfl, rfl⟩ := List.cons.inj hsplit
          exact ⟨_, step, after, stop, rfl, hleads, hblocks⟩
    · rw [follow_cons_of_blocks hblocks]
      constructor
      · intro h
        cases h
        exact ⟨[], first, steps, location, rfl, .stop, hblocks⟩
      · rintro ⟨before, step, after, stop, hsplit, hleads, hblocks'⟩
        cases hleads with
        | stop => rw [hblocks.unique hblocks']
        | step hdirectory _ => exact absurd hdirectory hblocks.ne_directory

/-- Steps lead to one place. -/
theorem Leads.unique {steps : List String} {target' : Location}
    (h : files.Leads location steps target) (h' : files.Leads location steps target') :
    target = target' := by
  have hfollow := follow_eq_ok_iff.mpr h
  rw [follow_eq_ok_iff.mpr h'] at hfollow
  exact (Except.ok.inj hfollow).symm

/-- What an empty step leads to is a directory, for the step starts there. -/
theorem Leads.directory_of_concat_empty {steps : List String}
    (h : files.Leads location (steps ++ [""]) target) : files.find? target = some .directory := by
  induction steps generalizing location with
  | nil =>
    cases h with
    | step hdirectory h =>
      cases h
      exact hdirectory
  | cons step steps ih =>
    cases h with
    | step _ h => exact ih h

/-! ### Files are written -/

/-- No file can be written at a path exactly if the path leads to nothing but directories. -/
theorem barred_iff : files.Barred path ↔
    ∀ target, files.Reaches path target → files.find? target = some .directory := by
  constructor
  · intro h target htarget
    cases h with
    | directory h hdirectory => rwa [← h.unique htarget]
    | belowMissing hsplit h hmissing =>
      have hfollow := follow_eq_error_iff.mpr ⟨_, _, _, _, hsplit, h, .missing hmissing⟩
      rw [follow_eq_ok_iff.mpr htarget] at hfollow
      cases hfollow
    | belowFile hsplit h hfile =>
      have hfollow := follow_eq_error_iff.mpr ⟨_, _, _, _, hsplit, h, .file hfile⟩
      rw [follow_eq_ok_iff.mpr htarget] at hfollow
      cases hfollow
  · intro h
    cases hfollow : files.follow (startOf path) (path.splitOn "/") with
    | ok target =>
      have htarget : files.Reaches path target := follow_eq_ok_iff.mp hfollow
      exact .directory htarget (h target htarget)
    | error fault =>
      obtain ⟨before, step, after, stop, hsplit, hleads, hblocks⟩ :=
        follow_eq_error_iff.mp hfollow
      cases hblocks with
      | missing hmissing => exact .belowMissing hsplit hleads hmissing
      | file hfile => exact .belowFile hsplit hleads hfile

/-- A path whose last step is empty leads to directories only. -/
theorem Reaches.directory_of_empty_step (h : files.Reaches path target)
    (hlast : (path.splitOn "/").getLast? = some "") : files.find? target = some .directory := by
  obtain ⟨steps, hsteps⟩ := List.getLast?_eq_some_iff.mp hlast
  unfold Reaches at h
  rw [hsteps] at h
  exact h.directory_of_concat_empty

/-- Nothing is written at a path whose last step is empty. -/
theorem exists_locateTarget_eq_error (hlast : (path.splitOn "/").getLast? = some "") :
    ∃ fault, files.locateTarget path = .error fault := by
  unfold locateTarget stepsOf
  cases path.isEmpty with
  | true => exact ⟨.notFound, rfl⟩
  | false =>
    simp only [Bool.false_eq_true, if_false, bind, Except.bind, if_pos hlast]
    cases files.follow (startOf path)
        ((List.drop 1 (List.dropWhile (· == "") (path.splitOn "/").reverse)).reverse ++ [""]) with
    | error fault => exact ⟨fault, rfl⟩
    | ok location => exact ⟨.isDirectory, rfl⟩

/-- A path whose last step is not empty is not empty: the only step of the empty path is. -/
theorem isEmpty_eq_false (hlast : (path.splitOn "/").getLast? ≠ some "") :
    path.isEmpty = false := by
  rw [← Bool.not_eq_true, String.isEmpty_iff]
  rintro rfl
  rw [splitOn_slash] at hlast
  exact hlast rfl

/-- A path whose last step is not empty is followed, and must not end in a directory. -/
theorem locateTarget_of_step (hlast : (path.splitOn "/").getLast? ≠ some "") :
    files.locateTarget path = (do
      let location ← files.follow (startOf path) (path.splitOn "/")
      if files.find? location = some .directory then .error .isDirectory else .ok location) := by
  have hpath := isEmpty_eq_false hlast
  unfold locateTarget stepsOf
  simp only [hpath, Bool.false_eq_true, if_false, bind, Except.bind, if_neg hlast]
  cases files.follow (startOf path) (path.splitOn "/") with
  | error fault => rfl
  | ok location =>
    match hfind : files.find? location with
    | none | some (.file _) | some .directory =>
      simp only [hfind, reduceCtorEq, if_false, if_true, Option.some.injEq]
      rfl

/-- The place where a file is to be written is the one to which the path leads, unless a directory
is there. -/
theorem locateTarget_eq_ok_iff : files.locateTarget path = .ok target ↔
    files.Reaches path target ∧ files.find? target ≠ some .directory := by
  by_cases hlast : (path.splitOn "/").getLast? = some ""
  · obtain ⟨fault, hfault⟩ : ∃ fault, files.locateTarget path = .error fault :=
      exists_locateTarget_eq_error hlast
    rw [hfault]
    constructor
    · intro h
      cases h
    · rintro ⟨hreaches, hfile⟩
      exact absurd (hreaches.directory_of_empty_step hlast) hfile
  · rw [locateTarget_of_step hlast, bind_eq_ok_iff, Reaches, ← follow_eq_ok_iff]
    constructor
    · rintro ⟨location, hfollow, h⟩
      split at h
      · cases h
      · cases h
        exact ⟨hfollow, ‹_›⟩
    · rintro ⟨hfollow, hfile⟩
      exact ⟨target, hfollow, if_neg hfile⟩

/-- Files are written exactly at the paths that are not barred. -/
theorem exists_write_eq_ok_iff :
    (∃ written, files.write path content = .ok written) ↔ ¬ files.Barred path := by
  rw [barred_iff, not_forall]
  simp only [Classical.not_imp]
  constructor
  · rintro ⟨written, hok⟩
    obtain ⟨target, htarget, -⟩ := bind_eq_ok_iff.mp hok
    exact ⟨target, locateTarget_eq_ok_iff.mp htarget⟩
  · rintro ⟨target, htarget⟩
    exact ⟨_, bind_eq_ok_iff.mpr ⟨target, locateTarget_eq_ok_iff.mpr htarget, rfl⟩⟩

/-! ### Files are read -/

/-- The steps of a path can be taken unless the path is empty. -/
theorem stepsOf_eq_ok_iff {steps : List String} :
    stepsOf path = .ok steps ↔ path.isEmpty = false ∧ path.splitOn "/" = steps := by
  unfold stepsOf
  cases path.isEmpty <;> simp

/-- What is read is the content of the file to which the path leads. -/
theorem read_eq_ok_iff : files.read path = .ok content ↔
    ∃ target, files.Reaches path target ∧ files.find? target = some (.file content) := by
  constructor
  · intro hok
    obtain ⟨target, htarget, hread⟩ := bind_eq_ok_iff.mp hok
    obtain ⟨steps, hsteps, hfollow⟩ := bind_eq_ok_iff.mp htarget
    obtain ⟨-, rfl⟩ := stepsOf_eq_ok_iff.mp hsteps
    refine ⟨target, follow_eq_ok_iff.mp hfollow, ?_⟩
    match hfind : files.find? target with
    | none | some .directory =>
      rw [hfind] at hread
      cases hread
    | some (.file _) =>
      rw [hfind] at hread
      cases hread
      rfl
  · rintro ⟨target, hreaches, hfile⟩
    have hpath : path.isEmpty = false := isEmpty_eq_false fun hlast => by
      rw [hreaches.directory_of_empty_step hlast] at hfile
      cases hfile
    have hsteps : stepsOf path = .ok (path.splitOn "/") := stepsOf_eq_ok_iff.mpr ⟨hpath, rfl⟩
    have hlocate : files.locate path = .ok target :=
      bind_eq_ok_iff.mpr ⟨_, hsteps, follow_eq_ok_iff.mpr hreaches⟩
    refine bind_eq_ok_iff.mpr ⟨target, hlocate, ?_⟩
    rw [hfile]
    rfl

/-- What can be read can be written over. -/
theorem not_barred_of_read (hok : files.read path = .ok content) : ¬ files.Barred path := by
  obtain ⟨target, hreaches, hfile⟩ := read_eq_ok_iff.mp hok
  rw [barred_iff, not_forall]
  refine ⟨target, fun h => ?_⟩
  rw [h hreaches] at hfile
  cases hfile

/-! ### What a write changes -/

/-- A file is found where it was written. -/
theorem find?_insert_self (files : Files) (location : Location) (content : ByteArray) :
    (files.insert location content).find? location = some (.file content) := by
  simp [find?, insert]

/-- All places on the way down to a place are directories. -/
def Grounded (files : Files) (location : Location) : Prop :=
  ∀ other, other ≠ location → other.leadsTo location = true → files.find? other = some .directory

/-- A file that is written changes what is found at no other place, if the way down to it is there.
-/
theorem find?_insert_of_ne {other : Location} (hne : other ≠ location)
    (hgrounded : other.leadsTo location = true → files.find? other = some .directory) :
    (files.insert location content).find? other = files.find? other := by
  have hkept : (files.entries.filter (·.1 != location)).find? (·.1 == other) =
      files.entries.find? (·.1 == other) := by
    rw [List.find?_filter]
    congr 1
    funext entry
    by_cases hentry : entry.1 = other
    · simp [hentry, hne]
    · simp [hentry]
  have hnew : (location == other) = false := beq_eq_false_iff_ne.mpr hne.symm
  by_cases hleads : other.leadsTo location = true
  · -- The place is on the way down, where a directory stays one.
    have hdirectory := hgrounded hleads
    rw [hdirectory]
    unfold find? at hdirectory ⊢
    unfold insert
    rw [List.find?_cons, hnew, hkept]
    cases hfind : files.entries.find? (·.1 == other) with
    | some entry => rwa [hfind] at hdirectory
    | none => simp [hleads]
  · -- The place leads to the same entries as before.
    have hany : (files.entries.filter (·.1 != location)).any (other.leadsTo ·.1) =
        files.entries.any (other.leadsTo ·.1) := by
      rw [List.any_filter]
      congr 1
      funext entry
      by_cases hentry : entry.1 = location
      · simp [hentry, hleads]
      · simp [hentry]
    unfold find? insert
    rw [List.find?_cons, hnew, hkept, List.any_cons, hany, Bool.eq_false_iff.mpr hleads,
      Bool.false_or]

/-- The way down to a place on a path is there, if the path starts at an anchor. -/
theorem Leads.grounded {steps : List String} (h : files.Leads location steps target)
    (hlocation : files.Grounded location) : files.Grounded target := by
  induction h with
  | stop => exact hlocation
  | @step location target step steps hdirectory _ ih =>
    apply ih
    intro other hne hleads
    unfold Location.next at hne hleads
    split at hleads
    · rw [if_pos ‹_›] at hne
      exact hlocation other hne hleads
    · rw [if_neg ‹_›] at hne
      split at hleads
      · rw [if_pos ‹_›] at hne
        rcases Location.eq_or_leadsTo_of_parent hleads with heq | ⟨hchild, hleads⟩
        · exact absurd heq hne
        · exact hlocation other hchild hleads
      · rw [if_neg ‹_›] at hne
        rcases Location.eq_or_leadsTo_of_child hleads with heq | hleads
        · exact absurd heq hne
        · by_cases hparent : other = location
          · rwa [hparent]
          · exact hlocation other hparent hleads

/-- Anchors have no way down. -/
theorem grounded_startOf (files : Files) (path : String) : files.Grounded (startOf path) := by
  intro other hne hleads
  obtain ⟨hanchor, hsteps⟩ := Location.leadsTo_iff.mp hleads
  have hstart : (startOf path).steps = [] := by
    unfold startOf
    split <;> rfl
  rw [hstart, List.prefix_nil] at hsteps
  obtain ⟨anchor, steps⟩ := other
  refine absurd ?_ hne
  obtain rfl : anchor = (startOf path).anchor := hanchor
  obtain rfl : steps = [] := hsteps
  rw [← hstart]

/-- What a write at a path makes of a tree: at the end of the path there is the file, and
everything else is as before. -/
structure WrittenAt (files : Files) (path : String) (content : ByteArray) (written : Files) :
    Prop where
  reached : ∃ target, files.Reaches path target ∧ written.find? target = some (.file content) ∧
    ∀ other, other ≠ target → written.find? other = files.find? other
  readBack : written.read path = .ok content

/-- The way along directories is not changed by a write at a place that is no directory. -/
theorem Leads.insert {steps : List String} {place : Location}
    (h : files.Leads location steps target) (hplace : files.find? place ≠ some .directory) :
    (files.insert place content).Leads location steps target := by
  induction h with
  | stop => exact .stop
  | @step location target step steps hdirectory _ ih =>
    have hne : location ≠ place := by
      rintro rfl
      exact hplace hdirectory
    refine .step ?_ ih
    rw [find?_insert_of_ne hne fun _ => hdirectory]
    exact hdirectory

/-- A write does what it should. -/
theorem writtenAt_of_write {written : Files} (hok : files.write path content = .ok written) :
    files.WrittenAt path content written := by
  obtain ⟨target, htarget, h⟩ := bind_eq_ok_iff.mp hok
  cases h
  obtain ⟨hreaches, hfile⟩ := locateTarget_eq_ok_iff.mp htarget
  have hgrounded : files.Grounded target := hreaches.grounded (grounded_startOf files path)
  refine ⟨⟨target, hreaches, find?_insert_self files target content, fun other hne => ?_⟩, ?_⟩
  · exact find?_insert_of_ne hne (hgrounded other hne)
  · have hpath := isEmpty_eq_false (mt hreaches.directory_of_empty_step hfile)
    have hleads : (files.insert target content).Reaches path target := Leads.insert hreaches hfile
    have hfollow := follow_eq_ok_iff.mpr hleads
    simp only [read, locate, stepsOf, hpath, Bool.false_eq_true, if_false, bind, Except.bind,
      hfollow, find?_insert_self]
    rfl

end Files

end DomainEvolution.Command
