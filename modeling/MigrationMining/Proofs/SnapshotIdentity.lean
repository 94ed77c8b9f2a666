import Mathlib.Algebra.Group.Nat.Defs
import Mathlib.Data.Set.Function
import MigrationMining.CodeModel.Cache

/-! What a code model is kept by: the coordinate of its archive, and the size and the time of the archive. -/

namespace MigrationMining

namespace Text

theorem byteArray_toList_loop (bytes : ByteArray) (i : Nat) (before : List UInt8) :
    ByteArray.toList.loop bytes i before = before.reverse ++ bytes.data.toList.drop i := by
  induction i, before using ByteArray.toList.loop.induct bytes with
  | case1 i before inside ih =>
    have bound : i < bytes.data.toList.length := by simpa using inside
    have byte : bytes.get! i = bytes.data.toList[i] := by simp [ByteArray.get!, inside]
    rw [ByteArray.toList.loop, if_pos inside, ih, List.drop_eq_getElem_cons bound, byte]
    simp
  | case2 i before outside =>
    have bound : bytes.data.toList.length ≤ i := by simpa using outside
    rw [ByteArray.toList.loop, if_neg outside, List.drop_eq_nil_of_le bound]
    simp

theorem toUTF8_toList_inj {s t : String} : s.toUTF8.toList = t.toUTF8.toList ↔ s = t := by
  constructor
  · intro same
    have data : s.toUTF8.data.toList = t.toUTF8.data.toList := by
      simpa [ByteArray.toList, byteArray_toList_loop] using same
    have bytes : s.toUTF8 = t.toUTF8 := congrArg ByteArray.mk (Array.toList_inj.1 data)
    exact String.toByteArray_inj.1 bytes
  · rintro rfl
    rfl

end Text

namespace Digest

@[simp] theorem length_littleEndian (n value : Nat) : (littleEndian n value).length = n := by
  simp [littleEndian]

theorem littleEndian_succ (n value : Nat) :
    littleEndian (n + 1) value = UInt8.ofNat value :: littleEndian n (value / 256) := by
  have digit (i : Nat) : value / 256 ^ (i + 1) = value / 256 / 256 ^ i := by
    rw [Nat.pow_succ', Nat.div_div_eq_div_mul]
  simp [littleEndian, List.range_succ_eq_map, digit, Function.comp_def]

theorem littleEndian_inj {n v w : Nat} (hv : v < 256 ^ n) (hw : w < 256 ^ n) :
    littleEndian n v = littleEndian n w ↔ v = w := by
  constructor
  · induction n generalizing v w with
    | zero =>
      intro
      omega
    | succ n ih =>
      intro same
      rw [littleEndian_succ, littleEndian_succ, List.cons.injEq] at same
      have low : v % 256 = w % 256 := by
        simpa using congrArg UInt8.toNat same.1
      have high : v / 256 = w / 256 := by
        rw [Nat.pow_succ'] at hv hw
        exact ih (Nat.div_lt_of_lt_mul hv) (Nat.div_lt_of_lt_mul hw) same.2
      omega
  · rintro rfl
    rfl

end Digest

/-- The size of an archive, and its time in nanoseconds since 1970. -/
structure ArchiveStamp where
  size : Nat
  modified : Nat
  deriving DecidableEq

/-- What a snapshot is known by. There may be no archive. -/
structure SnapshotIdentity where
  text : String
  archive : Option ArchiveStamp
  deriving DecidableEq

/-- Of the time of the archive what is after 1970. -/
def Snapshot.identity (s : Snapshot) (fs : FileStore) : SnapshotIdentity where
  text := s.coordinate.text
  archive := match fs.stat s.path with
    | .ok (.file content modified) => some ⟨content.size, modified.toNat⟩
    | .ok .directory => some ⟨directorySize, fs.clock.toNat⟩
    | .error _ => none

namespace SnapshotIdentity

def stampBytes (a : ArchiveStamp) : List UInt8 := Digest.littleEndian 8 a.size ++ Digest.littleEndian 16 a.modified

def bytes (i : SnapshotIdentity) : List UInt8 := i.text.toUTF8.toList ++ (i.archive.map stampBytes).getD []

def key (i : SnapshotIdentity) : String := Digest.hex i.bytes

theorem key_identity (s : Snapshot) (fs : FileStore) : (s.identity fs).key = s.key fs := by
  have stamp : ((s.identity fs).archive.map stampBytes).getD [] = Snapshot.stamp fs s.path := by
    unfold Snapshot.identity Snapshot.stamp
    cases found : fs.stat s.path with
    | error e => simp
    | ok node => cases node <;> simp [stampBytes]
  unfold key bytes Snapshot.key
  rw [stamp]
  rfl

def Bounded (i : SnapshotIdentity) : Prop := ∀ a ∈ i.archive, a.size < 256 ^ 8 ∧ a.modified < 256 ^ 16

theorem stampBytes_inj {a b : ArchiveStamp} (ha : a.size < 256 ^ 8 ∧ a.modified < 256 ^ 16)
    (hb : b.size < 256 ^ 8 ∧ b.modified < 256 ^ 16) (same : stampBytes a = stampBytes b) : a = b := by
  obtain ⟨sizes, times⟩ := List.append_inj same (by simp)
  have size : a.size = b.size := (Digest.littleEndian_inj ha.1 hb.1).1 sizes
  have modified : a.modified = b.modified := (Digest.littleEndian_inj ha.2 hb.2).1 times
  cases a
  cases b
  simp_all

/-- Identities that either both have an archive or both have none are told apart by the bytes that are hashed. -/
theorem eq_of_bytes {i j : SnapshotIdentity} (hi : i.Bounded) (hj : j.Bounded)
    (alike : i.archive.isSome = j.archive.isSome) (same : i.bytes = j.bytes) : i = j := by
  obtain ⟨text, archive⟩ := i
  obtain ⟨text', archive'⟩ := j
  cases archive with
  | none =>
    cases archive' with
    | some b => simp at alike
    | none =>
      have texts : text.toUTF8.toList = text'.toUTF8.toList := by simpa [bytes] using same
      rw [Text.toUTF8_toList_inj.1 texts]
  | some a =>
    cases archive' with
    | none => simp at alike
    | some b =>
      obtain ⟨texts, stamps⟩ := List.append_inj' same (by simp [stampBytes])
      have stamp : a = b := stampBytes_inj (hi a rfl) (hj b rfl) stamps
      have text_eq : text = text' := Text.toUTF8_toList_inj.1 texts
      rw [stamp, text_eq]

/-- The hash tells some identities apart: it takes their bytes to different digests, and no text of an identity without an
archive is another text followed by size and time. -/
structure ToldApart (ids : Set SnapshotIdentity) : Prop where
  bounded : ∀ i ∈ ids, i.Bounded
  separate : ∀ i ∈ ids, ∀ j ∈ ids, i.archive = none → j.archive ≠ none → i.bytes ≠ j.bytes
  collisionFree : Set.InjOn Digest.hex (bytes '' ids)

theorem ToldApart.key_inj {ids : Set SnapshotIdentity} (told : ToldApart ids) {i j : SnapshotIdentity} (hi : i ∈ ids)
    (hj : j ∈ ids) (same : i.key = j.key) : i = j := by
  have hashed : i.bytes = j.bytes := told.collisionFree ⟨i, hi, rfl⟩ ⟨j, hj, rfl⟩ same
  refine eq_of_bytes (told.bounded i hi) (told.bounded j hj) ?_ hashed
  cases first : i.archive with
  | none =>
    cases second : j.archive with
    | none => rfl
    | some b => exact absurd hashed (told.separate i hi j hj first (by simp [second]))
  | some a =>
    cases second : j.archive with
    | none => exact absurd hashed.symm (told.separate j hj i hi second (by simp [first]))
    | some b => rfl

end SnapshotIdentity
end MigrationMining
