import TablePeek.Preview
import TablePeek.Proofs.Document.Shape

set_option autoImplicit false

namespace TablePeek

open Utf8 (Bytes)

namespace Sink

def writeBoth (s : Sink) (front back : Bytes) : Sink × Except SinkError Unit :=
  match s.write front with
  | (s, .ok ()) => s.write back
  | failed => failed

theorem write_append (s : Sink) (front back : Bytes) : s.write (front ++ back) = s.writeBoth front back := by
  obtain ⟨taken, room, flushFails⟩ := s
  cases room with
  | none => simp [write, writeBoth]
  | some room =>
    by_cases first : front.length ≤ room
    · by_cases second : back.length ≤ room - front.length
      · have both : front.length + back.length ≤ room := by omega
        simp [write, writeBoth, first, second, both, Nat.sub_sub]
      · have beyond : ¬ front.length + back.length ≤ room := by omega
        simp [write, writeBoth, first, second, beyond, List.take_append, List.take_of_length_le first]
    · have beyond : ¬ front.length + back.length ≤ room := by omega
      have early : room - front.length = 0 := by omega
      simp [write, writeBoth, first, beyond, List.take_append, early]

theorem write_nothing (s : Sink) : s.write [] = (s, .ok ()) := by
  obtain ⟨taken, room, flushFails⟩ := s
  cases room <;> simp [write]

theorem write_all_at_once (s : Sink) (pieces : List Bytes) : s.writeAll pieces = s.writeAll [pieces.flatten] := by
  induction pieces generalizing s with
  | nil =>
    rw [List.flatten_nil]
    simp only [writeAll, write_nothing]
  | cons front rest ih =>
    simp only [writeAll] at ih
    rw [List.flatten_cons]
    simp only [writeAll, write_append, writeBoth]
    cases first : s.write front with
    | mk s result =>
      cases result with
      | error e => rfl
      | ok _ => exact ih s

end Sink

namespace Document

variable {t : Table} {mode : Mode}

theorem print_at_once (t : Table) (mode : Mode) (s : Sink) :
    print t mode s = s.writeAll [Utf8.encode (toText t mode)] := by
  have whole : ((pieces t mode).map Utf8.encode).flatten = Utf8.encode (toText t mode) := by
    simp only [toText, pieces, List.map_cons, List.map_nil, List.flatten_cons, List.flatten_nil, List.append_nil,
      Utf8.encode_append]
  rw [print, Sink.write_all_at_once, whole]

theorem print_limited (t : Table) (mode : Mode) (room : Nat) (flushFails : Bool) :
    print t mode ⟨[], some room, flushFails⟩ =
      let text := Utf8.encode (toText t mode)
      if room < text.length then (⟨text.take room, some 0, flushFails⟩, .error .write)
      else (⟨text, some (room - text.length), flushFails⟩, if flushFails then .error .flush else .ok ()) := by
  rw [print_at_once]
  simp only [Sink.writeAll, Sink.write]
  by_cases fits : (Utf8.encode (toText t mode)).length ≤ room
  · simp [fits, Nat.not_lt.mpr fits, Sink.flush]
  · simp [fits, Nat.not_le.mp fits]

end Document

structure Device (σ ε : Type) where
  write : σ → Bytes → σ × Except ε Unit
  flush : σ → σ × Except ε Unit

namespace Device

variable {σ ε δ : Type}

def writeAll (d : Device σ ε) (s : σ) : List Bytes → σ × Except ε Unit
  | [] => d.flush s
  | bs :: rest =>
    match d.write s bs with
    | (s, .ok ()) => d.writeAll s rest
    | failed => failed

def print (d : Device σ ε) (t : Table) (mode : Mode) (s : σ) : σ × Except ε Unit :=
  d.writeAll s ((Document.pieces t mode).map Utf8.encode)

def preview (d : Device σ ε) (loading : Path → LoadError → δ) (writing : ε → δ) (a : Preview.Arguments)
    (fs : FileSystem) (s : σ) : σ × Except δ Unit :=
  match Load.opened a.path (fs.find a.path) with
  | .error e => (s, .error (loading a.path e))
  | .ok t =>
    match d.print t a.mode s with
    | (s, .ok ()) => (s, .ok ())
    | (s, .error e) => (s, .error (writing e))

variable {a : Preview.Arguments} {fs : FileSystem}

theorem preview_not_loaded {e : LoadError} (failed : fs.load a.path = .error e) (d : Device σ ε)
    (loading : Path → LoadError → δ) (writing : ε → δ) (s : σ) :
    d.preview loading writing a fs s = (s, .error (loading a.path e)) := by
  rw [FileSystem.load] at failed
  rw [preview, failed]

theorem preview_loaded {t : Table} (loaded : fs.load a.path = .ok t) (d : Device σ ε)
    (loading : Path → LoadError → δ) (writing : ε → δ) (s : σ) :
    d.preview loading writing a fs s = ((d.print t a.mode s).1, (d.print t a.mode s).2.mapError writing) := by
  rw [FileSystem.load] at loaded
  rw [preview, loaded]
  cases printed : d.print t a.mode s with
  | mk s result => cases result <;> simp only [printed] <;> rfl

end Device

def Sink.device : Device Sink SinkError := ⟨Sink.write, Sink.flush⟩

section Preview

theorem device_write_all (s : Sink) (pieces : List Bytes) : Sink.device.writeAll s pieces = s.writeAll pieces := by
  induction pieces generalizing s with
  | nil => rfl
  | cons bs rest ih =>
    have first : Sink.device.write s bs = s.write bs := rfl
    rw [Device.writeAll, Sink.writeAll, first]
    cases s.write bs with
    | mk s result =>
      cases result with
      | error e => rfl
      | ok _ => exact ih s

theorem device_print (t : Table) (mode : Mode) (s : Sink) : Sink.device.print t mode s = Document.print t mode s :=
  device_write_all s _

theorem device_preview (a : Preview.Arguments) (fs : FileSystem) (s : Sink) :
    Preview.run a fs s = Sink.device.preview .load .sink a fs s := by
  rw [Preview.run, Preview.display, Device.preview]
  cases Load.opened a.path (fs.find a.path) with
  | error e => rfl
  | ok t =>
    simp only [device_print]
    obtain ⟨s, result⟩ := Document.print t a.mode s
    cases result <;> rfl

theorem load_error_message (p : Path) (e : LoadError) :
    (Preview.Error.load p e).message = "failed to load " ++ Utf8.toStringLossy p ++ ": " ++ String.intercalate ": " e.chain := by
  have nonempty : e.chain ≠ [] := by cases e <;> exact List.cons_ne_nil _ _
  exact String.intercalate_cons_of_ne_nil nonempty

/-- A sink with too little room holds just the first bytes of the document, and writing fails; with room enough it
holds them all, and only flushing can fail. The preview command gives what printing gives, and if the table does not
load it leaves alone whatever it was to write to, and names the path. -/
theorem printed_as_far_as_there_is_room :
    (∀ (t : Table) (mode : Mode) (room : Nat) (flushFails : Bool), ∃ text,
      Document.print t mode .unlimited = (⟨text, none, false⟩, .ok ()) ∧
      Document.print t mode ⟨[], some room, flushFails⟩ =
        if room < text.length then (⟨text.take room, some 0, flushFails⟩, .error .write)
        else (⟨text, some (room - text.length), flushFails⟩, if flushFails then .error .flush else .ok ())) ∧
    (∀ (a : Preview.Arguments) (fs : FileSystem) (s : Sink),
      Preview.run a fs s = Sink.device.preview .load .sink a fs s) ∧
    ∀ (a : Preview.Arguments) (fs : FileSystem) {σ ε δ : Type} (d : Device σ ε) (loading : Path → LoadError → δ)
      (writing : ε → δ) (s : σ),
      match fs.load a.path with
      | .error e => d.preview loading writing a fs s = (s, .error (loading a.path e)) ∧
          (Preview.Error.load a.path e).message =
            "failed to load " ++ Utf8.toStringLossy a.path ++ ": " ++ String.intercalate ": " e.chain
      | .ok t => d.preview loading writing a fs s =
          ((d.print t a.mode s).1, (d.print t a.mode s).2.mapError writing) := by
  refine ⟨fun t mode room flushFails => ?_, device_preview, fun a fs σ ε δ d loading writing s => ?_⟩
  · exact ⟨_, Document.print_unlimited t mode, Document.print_limited t mode room flushFails⟩
  · cases result : fs.load a.path with
    | error e => exact ⟨Device.preview_not_loaded result d loading writing s, load_error_message a.path e⟩
    | ok t => exact Device.preview_loaded result d loading writing s

end Preview

end TablePeek
