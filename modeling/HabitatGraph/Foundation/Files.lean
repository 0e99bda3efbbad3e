import HabitatGraph.Foundation.CrashLogic
import HabitatGraph.Foundation.PartialMap

/-! # Files whose writes may be torn

A disk holds bytes under paths. A write or an append that fails leaves its file
alone or, where writes may be torn, with a part of what was to be written; a file
is renamed as a whole or not at all. So a path that is only ever the target of
renames holds what it held, or what was written completely elsewhere. A file whose
metadata cannot be read is not found.

In the one environment any call may fail at any time; in the other a path is refused
the same calls all the time. Every step of the second is one of the first.
-/

namespace Files

open Program

/-- What each path holds. -/
abbrev Disk (Path : Type) := PartialMap Path (List UInt8)

/-- The calls on the file system. A file that is opened to append is created if absent. -/
inductive Op (Path : Type)
  | found (path : Path)
  | read (path : Path)
  | createDirAll (dir : String)
  | write (path : Path) (bytes : List UInt8)
  | openAppend (path : Path)
  | append (path : Path) (bytes : List UInt8)
  | rename (source target : Path)
  | setPermissions (path : Path)

/-- What a call is answered with; an error is the text of the system. -/
def Op.Answer {Path : Type} : Op Path → Type
  | .found _ => Bool
  | .read _ => Except String (List UInt8)
  | _ => Except String Unit

variable {Path : Type}

/-- The paths whose files a call may change. -/
def Op.touched : Op Path → List Path
  | .write path _ => [path]
  | .openAppend path => [path]
  | .append path _ => [path]
  | .rename source target => [source, target]
  | _ => []

/-- What may happen to the files besides that a call fails: a write of the path may be cut in
the middle, and the path may not be found although it is there. -/
structure Faults (Path : Type) where
  torn : Path → Prop
  hidden : Path → Prop

/-- Writes are whole and what is there is found. -/
def Faults.never : Faults Path := ⟨fun _ => False, fun _ => False⟩

/-- Any write may be cut, and what is there is found. -/
def Faults.tearing : Faults Path := ⟨fun _ => True, fun _ => False⟩

variable [DecidableEq Path] (faults : Faults Path)

/-- A call with its answer, and what it does to the disk. -/
def Step (d : Disk Path) : Event (@Op.Answer Path) → Disk Path → Prop
  | ⟨.found path, ans⟩, d' =>
      (ans = (d path).isSome ∨ faults.hidden path ∧ ans = false) ∧ d' = d
  | ⟨.read path, ans⟩, d' => (∀ bytes, ans = .ok bytes → d path = some bytes) ∧ d' = d
  | ⟨.createDirAll _, _⟩, d' => d' = d
  | ⟨.write path bytes, .ok _⟩, d' => d' = d.insert path bytes
  | ⟨.write path bytes, .error _⟩, d' =>
      d' = d ∨ faults.torn path ∧ ∃ part, part <+: bytes ∧ d' = d.insert path part
  | ⟨.openAppend path, .ok _⟩, d' => d' = d.insert path ((d path).getD [])
  | ⟨.openAppend _, .error _⟩, d' => d' = d
  | ⟨.append path bytes, .ok _⟩, d' => d' = d.insert path ((d path).getD [] ++ bytes)
  | ⟨.append path bytes, .error _⟩, d' =>
      d' = d ∨ faults.torn path ∧
        ∃ part, part <+: bytes ∧ d' = d.insert path ((d path).getD [] ++ part)
  | ⟨.rename source target, .ok _⟩, d' =>
      ∃ bytes, d source = some bytes ∧ d' = (d.erase source).insert target bytes
  | ⟨.rename _ _, .error _⟩, d' => d' = d
  | ⟨.setPermissions _, _⟩, d' => d' = d

variable {faults} {d d' : Disk Path}

/-- A call leaves the other files alone. -/
theorem Step.frame {op : Op Path} {ans : op.Answer} (h : Step faults d ⟨op, ans⟩ d') {path : Path}
    (hpath : path ∉ op.touched) : d' path = d path := by
  cases op with
  | found _ => exact congrFun h.2 path
  | read _ => exact congrFun h.2 path
  | createDirAll _ => exact congrFun h path
  | setPermissions _ => exact congrFun h path
  | write other bytes =>
      have hne : path ≠ other := List.ne_of_not_mem_cons hpath
      cases ans with
      | ok _ => rw [h, PartialMap.insert_of_ne _ _ hne]
      | error _ =>
          rcases h with h | ⟨-, part, -, h⟩
          · rw [h]
          · rw [h, PartialMap.insert_of_ne _ _ hne]
  | openAppend other =>
      have hne : path ≠ other := List.ne_of_not_mem_cons hpath
      cases ans with
      | ok _ => rw [h, PartialMap.insert_of_ne _ _ hne]
      | error _ => rw [h]
  | append other bytes =>
      have hne : path ≠ other := List.ne_of_not_mem_cons hpath
      cases ans with
      | ok _ => rw [h, PartialMap.insert_of_ne _ _ hne]
      | error _ =>
          rcases h with h | ⟨-, part, -, h⟩
          · rw [h]
          · rw [h, PartialMap.insert_of_ne _ _ hne]
  | rename source target =>
      have hsource : path ≠ source := List.ne_of_not_mem_cons hpath
      have htarget : path ≠ target := fun heq => hpath (by simp [Op.touched, heq])
      cases ans with
      | ok _ =>
          obtain ⟨bytes, -, h⟩ := h
          rw [h, PartialMap.insert_of_ne _ _ htarget, PartialMap.erase_of_ne _ hsource]
      | error _ => rw [h]

/-- A call that touches no file leaves the disk alone. -/
theorem Step.eq {op : Op Path} {ans : op.Answer} (h : Step faults d ⟨op, ans⟩ d')
    (hop : op.touched = []) : d' = d := by
  funext path
  exact h.frame (hop ▸ List.not_mem_nil)

/-- What happens when nothing goes wrong but that a file is missing, or that the device has room
for some bytes of each write only. -/
def respond (room : Option Nat) (d : Disk Path) : (op : Op Path) → op.Answer × Disk Path
  | .found path => ((d path).isSome, d)
  | .read path =>
      match d path with
      | some bytes => (.ok bytes, d)
      | none => (.error "No such file or directory (os error 2)", d)
  | .createDirAll _ => (.ok (), d)
  | .write path bytes =>
      match room with
      | none => (.ok (), d.insert path bytes)
      | some n => (.error "No space left on device (os error 28)", d.insert path (bytes.take n))
  | .openAppend path => (.ok (), d.insert path ((d path).getD []))
  | .append path bytes =>
      match room with
      | none => (.ok (), d.insert path ((d path).getD [] ++ bytes))
      | some n => (.error "No space left on device (os error 28)",
          d.insert path ((d path).getD [] ++ bytes.take n))
  | .rename source target =>
      match d source with
      | some bytes => (.ok (), (d.erase source).insert target bytes)
      | none => (.error "No such file or directory (os error 2)", d)
  | .setPermissions _ => (.ok (), d)

theorem step_respond (room : Option Nat) (d : Disk Path) (op : Op Path) :
    Step Faults.tearing d ⟨op, (respond room d op).1⟩ (respond room d op).2 := by
  cases op with
  | read path =>
      unfold respond
      dsimp only
      split
      next bytes hbytes =>
        refine ⟨?_, rfl⟩
        rintro bytes' ⟨⟩
        exact hbytes
      next => exact ⟨fun _ h => absurd h error_ne_ok, rfl⟩
  | rename source target =>
      unfold respond
      dsimp only
      split
      next bytes hbytes => exact ⟨bytes, hbytes, rfl⟩
      next => exact rfl
  | write path bytes =>
      cases room with
      | none => exact rfl
      | some n => exact .inr ⟨trivial, _, List.take_prefix n bytes, rfl⟩
  | append path bytes =>
      cases room with
      | none => exact rfl
      | some n => exact .inr ⟨trivial, _, List.take_prefix n bytes, rfl⟩
  | found path => exact ⟨.inl rfl, rfl⟩
  | _ => exact rfl

/-! ## Refused calls -/

/-- What is refused on a path, each with the text of the system: finding it, reading it,
opening it to write, and room for all that is written. -/
structure Refusals where
  found : Bool
  read : Option String
  openWrite : Option String
  room : Option String
deriving DecidableEq, Repr

/-- Nothing is refused. -/
def Refusals.none : Refusals := ⟨false, .none, .none, .none⟩

/-- What reading is answered. -/
def Refusals.readAnswer (refusals : Refusals) (content : Option (List UInt8)) :
    Except String (List UInt8) :=
  match refusals.read, content with
  | some e, _ => .error e
  | .none, .none => .error "No such file or directory (os error 2)"
  | .none, some bytes => .ok bytes

theorem Refusals.readAnswer_eq_ok_iff {refusals : Refusals} {content : Option (List UInt8)}
    {bytes : List UInt8} :
    refusals.readAnswer content = .ok bytes ↔ refusals.read = .none ∧ content = some bytes := by
  unfold readAnswer
  split <;> simp_all

section Refusals

variable (refusals : Path → Refusals) in
/-- A call with its answer where paths are refused the same calls all the time. A write that
may find no room goes through or is cut anywhere. Calls on directories, renames and changes of
modes may fail at any time. -/
def RefusedStep (d : Disk Path) : Event (@Op.Answer Path) → Disk Path → Prop
  | ⟨.found path, ans⟩, d' => ans = (!(refusals path).found && (d path).isSome) ∧ d' = d
  | ⟨.read path, ans⟩, d' => ans = (refusals path).readAnswer (d path) ∧ d' = d
  | ⟨.write path bytes, ans⟩, d' =>
      match (refusals path).openWrite with
      | some e => ans = .error e ∧ d' = d
      | none => ans = .ok () ∧ d' = d.insert path bytes ∨
          ∃ e ∈ (refusals path).room, ans = .error e ∧
            ∃ part, part <+: bytes ∧ d' = d.insert path part
  | ⟨.openAppend path, ans⟩, d' =>
      match (refusals path).openWrite with
      | some e => ans = .error e ∧ d' = d
      | none => ans = .ok () ∧ d' = d.insert path ((d path).getD [])
  | ⟨.append path bytes, ans⟩, d' =>
      ans = .ok () ∧ d' = d.insert path ((d path).getD [] ++ bytes) ∨
        ∃ e ∈ (refusals path).room, ans = .error e ∧
          ∃ part, part <+: bytes ∧ d' = d.insert path ((d path).getD [] ++ part)
  | event, d' => Step Faults.never d event d'

variable {refusals : Path → Refusals} {path : Path} {e : String}

theorem refusedStep_write_iff_of_some (hopen : (refusals path).openWrite = some e)
    {bytes : List UInt8} {ans : Except String Unit} :
    RefusedStep refusals d ⟨.write path bytes, ans⟩ d' ↔ ans = .error e ∧ d' = d := by
  simp only [RefusedStep, hopen]
  exact Iff.rfl

theorem refusedStep_write_iff_of_none (hopen : (refusals path).openWrite = none)
    {bytes : List UInt8} {ans : Except String Unit} :
    RefusedStep refusals d ⟨.write path bytes, ans⟩ d' ↔
      ans = .ok () ∧ d' = d.insert path bytes ∨ ∃ e ∈ (refusals path).room, ans = .error e ∧
        ∃ part, part <+: bytes ∧ d' = d.insert path part := by
  simp only [RefusedStep, hopen]
  exact Iff.rfl

theorem refusedStep_openAppend_iff_of_some (hopen : (refusals path).openWrite = some e)
    {ans : Except String Unit} :
    RefusedStep refusals d ⟨.openAppend path, ans⟩ d' ↔ ans = .error e ∧ d' = d := by
  simp only [RefusedStep, hopen]
  exact Iff.rfl

theorem refusedStep_openAppend_iff_of_none (hopen : (refusals path).openWrite = none)
    {ans : Except String Unit} :
    RefusedStep refusals d ⟨.openAppend path, ans⟩ d' ↔
      ans = .ok () ∧ d' = d.insert path ((d path).getD []) := by
  simp only [RefusedStep, hopen]
  exact Iff.rfl

variable (refusals) in
/-- The faults of refused paths. -/
def refusedFaults : Faults Path where
  torn path := (refusals path).room.isSome
  hidden path := (refusals path).found

/-- What refusals allow is a step. -/
theorem RefusedStep.step {event : Event (@Op.Answer Path)} (h : RefusedStep refusals d event d') :
    Step (refusedFaults refusals) d event d' := by
  obtain ⟨op, ans⟩ := event
  cases op with
  | found path =>
      obtain ⟨rfl, rfl⟩ := h
      refine ⟨?_, rfl⟩
      cases hfound : (refusals path).found with
      | false => exact .inl rfl
      | true => exact .inr ⟨hfound, rfl⟩
  | read path =>
      obtain ⟨rfl, rfl⟩ := h
      exact ⟨fun bytes hbytes => (Refusals.readAnswer_eq_ok_iff.mp hbytes).2, rfl⟩
  | write path bytes =>
      cases hopen : (refusals path).openWrite with
      | some e =>
          obtain ⟨rfl, rfl⟩ := (refusedStep_write_iff_of_some hopen).mp h
          exact .inl rfl
      | none =>
          rcases (refusedStep_write_iff_of_none hopen).mp h with
            ⟨rfl, rfl⟩ | ⟨e, he, rfl, part, hpart, rfl⟩
          · exact rfl
          · exact .inr ⟨Option.isSome_of_mem he, part, hpart, rfl⟩
  | openAppend path =>
      cases hopen : (refusals path).openWrite with
      | some e =>
          obtain ⟨rfl, rfl⟩ := (refusedStep_openAppend_iff_of_some hopen).mp h
          exact rfl
      | none =>
          obtain ⟨rfl, rfl⟩ := (refusedStep_openAppend_iff_of_none hopen).mp h
          exact rfl
  | append path bytes =>
      rcases h with ⟨rfl, rfl⟩ | ⟨e, he, rfl, part, hpart, rfl⟩
      · exact rfl
      · exact .inr ⟨Option.isSome_of_mem he, part, hpart, rfl⟩
  | createDirAll dir => exact h
  | rename source target => cases ans <;> exact h
  | setPermissions path => exact h

end Refusals

/-! ## Rules for the calls -/

section Rules

variable {ε α : Type} {post : Except ε α → Disk Path → Prop} {crash : Disk Path → Prop}

/-- A path is found if it is there, unless it is hidden. -/
theorem triple_found {path : Path} {next : Bool → Program (Op Path) Op.Answer ε α}
    (hcrash : crash d)
    (hnext : ∀ found, (found = (d path).isSome ∨ faults.hidden path ∧ found = false) →
      Triple (Step faults) (· = d) (next found) post crash) :
    Triple (Step faults) (· = d) (.call (.found path) next) post crash := by
  refine Triple.call (fun s hs => hs ▸ hcrash) fun ans => Triple.of_forall ?_
  rintro s ⟨s', rfl, hans, rfl⟩
  exact hnext ans hans

/-- What is read is what the disk holds, or an error. -/
theorem triple_read {path : Path} {answer : Except String (List UInt8) → Except ε α} :
    Triple (Step faults) (· = d) (request (.read path) answer)
      (fun result d' => d' = d ∧ ∃ ans, (∀ bytes, ans = .ok bytes → d path = some bytes) ∧
        result = answer ans) (· = d) := by
  refine Triple.request (fun _ hs => hs) fun s ans s' hs hstep => ?_
  subst hs
  exact ⟨⟨hstep.2, ans, hstep.1, rfl⟩, hstep.2⟩

end Rules

end Files
