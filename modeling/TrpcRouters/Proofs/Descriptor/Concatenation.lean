import TrpcRouters.Proofs.Descriptor.RoundTrip
import TrpcRouters.Proofs.Wire.Concatenation

/-! Descriptor sets one behind the other. The bytes of two sets together are those of one set with the
files of both, and the second set has the last word on a file that both describe. -/

namespace TrpcRouters.Descriptor
open Wire

theorem FileSet.ofEntries_append (first second : Entries) :
    ofEntries (first ++ second) = ofEntries first ++ ofEntries second := by
  rw [ofEntries, submessages_append, List.map_append]
  rfl

/-- Behind the bytes of a set, other bytes add their files, or are refused as they are alone. -/
theorem FileSet.decode_append {first : Bytes} {files : FileSet} (read : FileSet.decode first = .ok files)
    (second : Bytes) :
    FileSet.decode (first ++ second) = (FileSet.decode second).map (files ++ ·) := by
  obtain ⟨entries, whole, rfl⟩ := map_eq_ok_iff.mp read
  rw [FileSet.decode, Wire.decode_append whole, FileSet.decode]
  cases Wire.decode .fileDescriptorSet second with
  | error fault => rfl
  | ok others => exact congrArg Except.ok (ofEntries_append entries others)

theorem FileSet.file?_append (files others : FileSet) (name : String) :
    FileSet.file? (files ++ others) name = (others.file? name).or (files.file? name) := by
  rw [file?, List.reverse_append, List.find?_append]
  rfl

end TrpcRouters.Descriptor

namespace TrpcRouters.Generation
open Descriptor

/-- If a file holds the bytes of a set and others behind them, the services come from the files of both,
those of the other bytes having the last word; and where these are malformed alone, there is the same
wrong with the whole. -/
theorem loadServices_append {first : Bytes} {files : FileSet} (accepted : FileSet.decode first = .ok files)
    (second : Bytes) :
    FileSet.decode (first ++ second) = (FileSet.decode second).map (files ++ ·) ∧
    (∀ (others : FileSet) (name : String),
      FileSet.file? (files ++ others) name = (others.file? name).or (files.file? name)) ∧
    ∀ (file : Path) (requested : List String) (world : World),
      world.tree.read file = .ok (first ++ second) →
        loadServices file requested world =
          match FileSet.decode second with
          | .ok others => .ok (FileSet.services (files ++ others) requested)
              { world with
                log := world.log ++ (FileSet.missing (files ++ others) requested).map .missing }
          | .error fault => .error (LoadError.malformed file fault).failure world := by
  have whole := FileSet.decode_append accepted second
  refine ⟨whole, FileSet.file?_append files, fun file requested world held => ?_⟩
  rw [loadServices_eq, FileSet.load, held]
  simp only [FileSet.ofBytes, whole]
  cases FileSet.decode second <;> rfl

/-- A file that is named twice, beside a group that nothing is known of, with numbers that are longer
than they have to be; and a group behind the file. -/
def renamedBytes : Bytes :=
  [0x8a, 0x00, 0x8c, 0x80, 0x00, 0x0a, 0x01, 0x61, 0xa3, 0x01, 0x08, 0x05, 0xa4, 0x01, 0x0a, 0x01, 0x62,
    0x23, 0x24]

def laterSet : FileSet :=
  [⟨some "b", some "late", [], [⟨some "Shop", []⟩]⟩]

def heldWorld (content : Bytes) : World :=
  ⟨⟨[(["set"], .file content 1 false)], [], 1, [], []⟩, []⟩

/-- The later description is used, and a torn one is refused for what is wrong with itself. -/
theorem renamedBytes_loaded_on :
    FileSet.decode renamedBytes = .ok [⟨some "b", none, [], []⟩] ∧
    loadServices ⟨"/set"⟩ ["b"] (heldWorld (renamedBytes ++ laterSet.encode)) =
      .ok [⟨"Shop", "late.Shop", "b", []⟩] (heldWorld (renamedBytes ++ laterSet.encode)) ∧
    loadServices ⟨"/set"⟩ ["b"] (heldWorld (renamedBytes ++ [0x0a, 0x02, 0x0a])) =
      .error (.descriptor ("Failed to decode /set: failed to decode Protobuf message: " ++
        "FileDescriptorSet.file: buffer underflow"))
        (heldWorld (renamedBytes ++ [0x0a, 0x02, 0x0a])) := by
  have accepted : FileSet.decode renamedBytes = .ok [⟨some "b", none, [], []⟩] := rfl
  have whole : FileSet.decode laterSet.encode = .ok laterSet := rfl
  have torn : FileSet.decode [0x0a, 0x02, 0x0a] =
      .error ⟨.underflow, [("FileDescriptorSet", "file")]⟩ := rfl
  obtain ⟨_, _, loads⟩ := loadServices_append accepted laterSet.encode
  obtain ⟨_, _, refuses⟩ := loadServices_append accepted [0x0a, 0x02, 0x0a]
  have loaded := loads ⟨"/set"⟩ ["b"] (heldWorld (renamedBytes ++ laterSet.encode)) rfl
  have refused := refuses ⟨"/set"⟩ ["b"] (heldWorld (renamedBytes ++ [0x0a, 0x02, 0x0a])) rfl
  rw [whole] at loaded
  rw [torn] at refused
  exact ⟨accepted, loaded, refused⟩

end TrpcRouters.Generation
