import RecoveryPlanner.Digest
import RecoveryPlanner.SortedMap
set_option autoImplicit false

/-! The file-backed store of `persistence.cpp`: its frames, and what is on disk while one
of them is committed. -/

namespace RecoveryPlanner

def kPersistenceMagic : UInt32 := 0x5250
def kPersistenceFormatVersion : UInt32 := 1

namespace FilePersistenceStore

def kMaxPayload : Nat := 256*1024*1024

def sanitizeKey (k : Str) : Str :=
  let out := k.map fun c =>
    if (97 ≤ c && c ≤ 122) || (65 ≤ c && c ≤ 90) || (48 ≤ c && c ≤ 57) ||
        c = 45 || c = 95 || c = 46 then c
    else 95
  if out.isEmpty then text "state" else out

def path (key : Str) : Str := sanitizeKey key ++ text ".rpp"

def tmp (key : Str) : Str := path key ++ text ".tmp"

def encodeFrame (bytes : Bytes) : Bytes :=
  ByteWriter.u32 kPersistenceMagic ++ (ByteWriter.u32 kPersistenceFormatVersion ++
    (ByteWriter.u32 bytes.length.toUInt32 ++ (bytes.flatMap ByteWriter.u8 ++
      ByteWriter.u32 (crc32c bytes 0))))

def decodeFrame (raw : Bytes) : Option Bytes :=
  if raw.length < 16 then none
  else
    let magic := ByteReader.u32 { data := raw }
    let ver := ByteReader.u32 magic.2
    let len := ByteReader.u32 ver.2
    let r := len.2
    if !r.ok || magic.1 ≠ kPersistenceMagic then none
    else if ver.1 ≠ kPersistenceFormatVersion then none
    else if kMaxPayload < len.1.toNat then none
    else if !r.has (len.1+4).toNat then none
    else
      match ByteReader.take len.1.toNat r with
      | (none,_) => none
      | (some payload,r) =>
        let storedCrc := ByteReader.u32 r
        if !storedCrc.2.ok then none
        else if storedCrc.2.remaining ≠ 0 then none
        else if crc32c payload 0 ≠ storedCrc.1 then none
        else some payload

abbrev Directory := SortedMap Str Bytes

/-- A file that is there can be opened and read. -/
def load (files : Directory) (key : Str) : Option Bytes :=
  match files.find? (path key) with
  | none => none
  | some raw => decodeFrame raw

def rename (files : Directory) (src dst : Str) : Directory :=
  match files.find? src with
  | none => files
  | some raw => (files.erase src).insert dst raw

/-- How the file system answers the calls of one `save`. -/
structure Faults where
  openFails : Bool := false
  /-- The write fails with this much of the frame in the file. -/
  torn : Option Nat := none
  /-- So much of the frame has left the buffer when the write returns. -/
  early : Nat := 0
  /-- The flush with which the stream is destroyed fails, and this much gets into the file. -/
  unflushed : Option Nat := none
  removeFails : Bool := false
  /-- The rename fails with this message. -/
  renameFails : Option Str := none

/-- What is in the temp file when the stream is gone. -/
def Faults.flushed (io : Faults) (frame : Bytes) : Bytes :=
  match io.unflushed with
  | some n => frame.take n
  | none => frame

/-- How far a `save` has come. -/
inductive Phase where
  | entered | opened | written | closed | removed
  | finished (result : Except RecoveryError Unit)

/-- The next file-system step of `save`. The stream is tested behind the write, but not behind
the flush of its destructor, and the error of `fs::remove` is overwritten by the one of
`fs::rename`. -/
def saveStep (io : Faults) (key : Str) (bytes : Bytes) : Phase × Directory → Phase × Directory
  | (.entered,files) =>
    if kMaxPayload < bytes.length then
      (.finished (.error
        ⟨.resourceExhaustion,text "persistence payload exceeds maximum size"⟩),files)
    else if io.openFails then
      (.finished (.error ⟨.persistenceCorruption,text "cannot open temp file for write"⟩),files)
    else (.opened,files.insert (tmp key) [])
  | (.opened,files) =>
    match io.torn with
    | some n =>
      (.finished (.error
        ⟨.persistenceCorruption,text "failed to write temp persistence frame"⟩),
        files.insert (tmp key) ((encodeFrame bytes).take n))
    | none => (.written,files.insert (tmp key) ((encodeFrame bytes).take io.early))
  | (.written,files) => (.closed,files.insert (tmp key) (io.flushed (encodeFrame bytes)))
  | (.closed,files) => (.removed,if io.removeFails then files else files.erase (path key))
  | (.removed,files) =>
    match io.renameFails with
    | some message =>
      (.finished (.error
        ⟨.persistenceCorruption,text "failed to commit persistence frame: " ++ message⟩),files)
    | none => (.finished (.ok ()),rename files (tmp key) (path key))
  | (.finished result,files) => (.finished result,files)

def stopped (io : Faults) (key : Str) (bytes : Bytes) (n : Nat) (files : Directory) : Directory :=
  ((saveStep io key bytes)^[n] (.entered,files)).2

theorem flatMap_u8 (bytes : Bytes) : bytes.flatMap ByteWriter.u8 = bytes :=
  List.flatMap_singleton' bytes

theorem u32_length (v : UInt32) : (ByteWriter.u32 v).length = 4 := bigEndian_length 4 _

theorem encodeFrame_length (bytes : Bytes) : (encodeFrame bytes).length = bytes.length+16 := by
  simp only [encodeFrame,flatMap_u8,List.length_append,u32_length]
  omega

theorem decodes_take (bytes : Bytes) :
    Scan.Decodes (ByteReader.take bytes.length) bytes True (some bytes) :=
  Scan.decodes_window rfl rfl

theorem reads_next {α : Type} {p : Scan UInt8 α} {ts tail : Bytes} {x : α}
    (hp : Scan.Decodes p ts True x) {r : ByteReader} (hr : r.failed = false)
    (h : r.rest = ts ++ tail) :
    p r = (x,r.advance ts.length) ∧ (r.advance ts.length).rest = tail := by
  refine ⟨(hp r tail hr h).1 trivial,?_⟩
  rw [Cursor.advance_rest,h,List.drop_left]

theorem decodeFrame_encodeFrame {bytes : Bytes} (h : bytes.length ≤ kMaxPayload) :
    decodeFrame (encodeFrame bytes) = some bytes := by
  have hmax : kMaxPayload < 2^32-4 := by decide
  have hlen : bytes.length.toUInt32.toNat = bytes.length := toNat_length_toUInt32 (by omega)
  have hlen4 : (bytes.length.toUInt32+4).toNat = bytes.length+4 := by
    have hfour : (4 : UInt32).toNat = 4 := rfl
    rw [UInt32.toNat_add,hlen,hfour]
    exact Nat.mod_eq_of_lt (by omega)
  -- The reader's way through the five parts of the frame.
  obtain ⟨h1,r1⟩ := reads_next (ByteReader.decodes_u32 kPersistenceMagic)
    (r := { data := encodeFrame bytes }) rfl rfl
  obtain ⟨h2,r2⟩ := reads_next (ByteReader.decodes_u32 kPersistenceFormatVersion) rfl r1
  obtain ⟨h3,r3⟩ := reads_next (ByteReader.decodes_u32 bytes.length.toUInt32) rfl r2
  rw [flatMap_u8] at r3
  obtain ⟨h4,r4⟩ := reads_next (decodes_take bytes) rfl r3
  obtain ⟨h5,r5⟩ := reads_next (ByteReader.decodes_u32 (crc32c bytes 0)) rfl
    (r4.trans (List.append_nil _).symm)
  have hhas := (Cursor.has_iff _ (bytes.length+4)).mpr
    ⟨rfl,by rw [r3,List.length_append,u32_length]⟩
  have hend := (Cursor.rest_length _).symm.trans (congrArg List.length r5)
  have hlong : ¬ (encodeFrame bytes).length < 16 := by rw [encodeFrame_length]; omega
  unfold decodeFrame
  rw [if_neg hlong]
  simp only [h1,h2,h3,hlen,hlen4,h4,h5,hhas,hend]
  simp [Cursor.ok,h]

theorem tmp_ne_path (key : Str) : tmp key ≠ path key := by
  intro h
  have hlen := congrArg List.length h
  rw [tmp,List.length_append] at hlen
  have htext : (text ".tmp").length = 4 := by decide
  omega

theorem finished_iterate (io : Faults) (key : Str) (bytes : Bytes) (n : Nat)
    (result : Except RecoveryError Unit) (files : Directory) :
    (saveStep io key bytes)^[n] (.finished result,files) = (.finished result,files) :=
  Function.iterate_fixed rfl n

def Faults.writes (io : Faults) : Bool := !io.openFails && io.torn.isNone

/-- All of the frame gets into the temp file, which the code does not check. -/
def Faults.Whole (io : Faults) (bytes : Bytes) : Prop :=
  ∀ n ∈ io.unflushed, bytes.length+16 ≤ n

/-- Stopped behind a removal and without a rename: the fourth step is the removal, and
the fifth the rename. -/
def Uncovered (io : Faults) (n : Nat) : Prop :=
  io.writes = true ∧ io.removeFails = false ∧
    (n = 4 ∨ (5 ≤ n ∧ io.renameFails.isSome = true))

/-- The rename has taken place. -/
def Committed (io : Faults) (n : Nat) : Prop :=
  io.writes = true ∧ 5 ≤ n ∧ io.renameFails = none

instance (io : Faults) (bytes : Bytes) : Decidable (io.Whole bytes) :=
  inferInstanceAs (Decidable (∀ n ∈ io.unflushed, _))

instance (io : Faults) (n : Nat) : Decidable (Uncovered io n) :=
  inferInstanceAs (Decidable (_ ∧ _ ∧ _))

instance (io : Faults) (n : Nat) : Decidable (Committed io n) :=
  inferInstanceAs (Decidable (_ ∧ _ ∧ _))

theorem Faults.Whole.flushed {io : Faults} {bytes : Bytes} (h : io.Whole bytes) :
    io.flushed (encodeFrame bytes) = encodeFrame bytes := by
  unfold Faults.flushed
  cases hf : io.unflushed with
  | none => rfl
  | some n =>
    have hn := h n hf
    exact List.take_of_length_le (by rw [encodeFrame_length]; exact hn)

theorem find?_stopped (io : Faults) (files : Directory) (key : Str) {bytes : Bytes} (n : Nat)
    (h : bytes.length ≤ kMaxPayload) :
    (stopped io key bytes n files).find? (path key) =
      if Uncovered io n then none
      else if Committed io n then some (io.flushed (encodeFrame bytes))
      else files.find? (path key) := by
  have hpt : path key ≠ tmp key := (tmp_ne_path key).symm
  have hfits : ¬ kMaxPayload < bytes.length := not_lt.mpr h
  cases ho : io.openFails with
  | true =>
    have hw : io.writes = false := by simp [Faults.writes,ho]
    have hsame : stopped io key bytes n files = files := by
      cases n with
      | zero => rfl
      | succ n => simp [stopped,saveStep,hfits,ho,finished_iterate]
    simp [hsame,Uncovered,Committed,hw]
  | false =>
    cases ht : io.torn with
    | some part =>
      have hw : io.writes = false := by simp [Faults.writes,ht]
      have hsame : (stopped io key bytes n files).find? (path key) = files.find? (path key) := by
        rcases n with _ | _ | n
        · rfl
        · simp [stopped,saveStep,hfits,ho,hpt]
        · simp [stopped,saveStep,hfits,ho,ht,hpt,finished_iterate]
      simp [hsame,Uncovered,Committed,hw]
    | none =>
      have hw : io.writes = true := by simp [Faults.writes,ho,ht]
      rcases n with _ | _ | _ | _ | _ | n
      · simp [stopped,Uncovered,Committed]
      · simp [stopped,saveStep,hfits,ho,hpt,Uncovered,Committed]
      · simp [stopped,saveStep,hfits,ho,ht,hpt,Uncovered,Committed]
      · simp [stopped,saveStep,hfits,ho,ht,hpt,Uncovered,Committed]
      · cases hr : io.removeFails <;>
          simp [stopped,saveStep,hfits,ho,ht,hr,hpt,Uncovered,Committed,hw]
      · cases hr : io.removeFails <;> cases hn : io.renameFails <;>
          simp [stopped,saveStep,hfits,ho,ht,hr,hn,hpt,rename,finished_iterate,Uncovered,
            Committed,hw,(tmp_ne_path key)]

theorem Committed.not_uncovered {io : Faults} {n : Nat} (h : Committed io n) :
    ¬ Uncovered io n := by
  rintro ⟨_,_,rfl | ⟨_,hfail⟩⟩
  · exact absurd h.2.1 (by decide)
  · rw [h.2.2] at hfail
    exact absurd hfail (by decide)

theorem load_committed {io : Faults} {n : Nat} (hdone : Committed io n) (files : Directory)
    (key : Str) {bytes : Bytes} (h : bytes.length ≤ kMaxPayload) :
    load (stopped io key bytes n files) key = decodeFrame (io.flushed (encodeFrame bytes)) := by
  have hfile := find?_stopped io files key n h
  rw [if_neg hdone.not_uncovered,if_pos hdone] at hfile
  simp only [load,hfile]

def holding (key : Str) (bytes : Bytes) : Directory :=
  SortedMap.empty.insert (path key) (encodeFrame bytes)

theorem load_holding (key : Str) {bytes : Bytes} (h : bytes.length ≤ kMaxPayload) :
    load (holding key bytes) key = some bytes := by
  simp only [load,holding,SortedMap.find?_insert,if_true]
  exact decodeFrame_encodeFrame h

end FilePersistenceStore

end RecoveryPlanner
