import RecoveryPlanner.FileStore
set_option autoImplicit false

/-! Which files `FilePersistenceStore::load` takes: the frames that `save` writes, and no
others. -/

namespace RecoveryPlanner

namespace FilePersistenceStore

def save (files : Directory) (key : Str) (bytes : Bytes) : Except RecoveryError Unit × Directory :=
  match (saveStep {} key bytes)^[5] (.entered,files) with
  | (.finished result,files) => (result,files)
  | (_,files) => (.ok (),files)

def frameWith (version length : UInt32) (bytes : Bytes) : Bytes :=
  ByteWriter.u32 kPersistenceMagic ++ (ByteWriter.u32 version ++ (ByteWriter.u32 length ++
    (bytes ++ ByteWriter.u32 (crc32c bytes 0))))

theorem encodeFrame_eq (bytes : Bytes) :
    encodeFrame bytes = frameWith kPersistenceFormatVersion bytes.length.toUInt32 bytes := by
  rw [encodeFrame,flatMap_u8]
  rfl

theorem u32_injective {v w : UInt32} (h : ByteWriter.u32 v = ByteWriter.u32 w) : v = w := by
  rw [← toUInt32_bigEndian v,← toUInt32_bigEndian w]
  exact congrArg (fun bs => (fromBigEndian bs).toUInt32) h

theorem frameWith_append_inj {v w m n : UInt32} {a b s t : Bytes}
    (h : frameWith v m a ++ s = frameWith w n b ++ t) : v = w ∧ m = n := by
  simp only [frameWith,List.append_assoc] at h
  obtain ⟨_,h⟩ := List.append_inj h rfl
  obtain ⟨hv,h⟩ := List.append_inj h (by rw [u32_length,u32_length])
  obtain ⟨hm,_⟩ := List.append_inj h (by rw [u32_length,u32_length])
  exact ⟨u32_injective hv,u32_injective hm⟩

theorem toNat_length {bytes : Bytes} (h : bytes.length ≤ kMaxPayload) :
    bytes.length.toUInt32.toNat = bytes.length := by
  have hmax : kMaxPayload < 2^32 := by decide
  exact toNat_length_toUInt32 (by omega)

theorem encodeFrame_length_inj {p q : Bytes} {s t : Bytes} (hp : p.length ≤ kMaxPayload)
    (hq : q.length ≤ kMaxPayload) (h : encodeFrame p ++ s = encodeFrame q ++ t) :
    p.length = q.length := by
  rw [encodeFrame_eq,encodeFrame_eq] at h
  rw [← toNat_length hp,← toNat_length hq,(frameWith_append_inj h).2]

theorem take_some {n : Nat} {r r' : ByteReader} {payload : Bytes}
    (h : ByteReader.take n r = (some payload,r')) :
    payload.length = n ∧ r.rest = payload ++ r'.rest := by
  unfold ByteReader.take Scan.window at h
  split at h
  · rename_i hh
    obtain ⟨hp,rfl⟩ := Prod.mk.inj h
    obtain rfl := Option.some.inj hp
    have hn := ((Cursor.has_iff r n).mp hh).2
    refine ⟨by rw [List.length_take]; omega,?_⟩
    rw [Cursor.advance_rest,List.take_append_drop]
  · exact absurd (Prod.mk.inj h).1 (by simp)

/-- The way back: what is accepted was read field by field, and each field is written as
it was read. -/
theorem encodeFrame_decodeFrame {raw payload : Bytes} (h : decodeFrame raw = some payload) :
    payload.length ≤ kMaxPayload ∧ raw = encodeFrame payload := by
  unfold decodeFrame at h
  dsimp only at h
  generalize hm : ByteReader.u32 { data := raw } = magic at h
  generalize hv : ByteReader.u32 magic.2 = ver at h
  generalize hl : ByteReader.u32 ver.2 = len at h
  split at h
  · simp at h
  split at h
  · simp at h
  rename_i hmagic
  split at h
  · simp at h
  rename_i hver
  split at h
  · simp at h
  rename_i hmax
  split at h
  · simp at h
  split at h
  · simp at h
  rename_i read r htake
  generalize hc : ByteReader.u32 r = crc at h
  split at h
  · simp at h
  rename_i hok
  split at h
  · simp at h
  rename_i hend
  split at h
  · simp at h
  rename_i hcrc
  obtain rfl := Option.some.inj h
  have hmagic : len.2.failed = false ∧ magic.1 = kPersistenceMagic := by
    simpa [Cursor.ok] using hmagic
  have hcf : crc.2.failed = false := by simpa [Cursor.ok] using hok
  -- A reader that has not failed behind a field had not failed before it.
  obtain ⟨hvf,h3⟩ := ByteReader.rewrites_u32.back hl hmagic.1
  obtain ⟨hmf,h2⟩ := ByteReader.rewrites_u32.back hv hvf
  obtain ⟨_,h1⟩ := ByteReader.rewrites_u32.back hm hmf
  obtain ⟨hn,h4⟩ := take_some htake
  obtain ⟨_,h5⟩ := ByteReader.rewrites_u32.back hc hcf
  have h6 : crc.2.rest = [] := by
    rw [← List.length_eq_zero_iff,Cursor.rest_length]
    exact not_not.mp hend
  have hlen : read.length.toUInt32 = len.1 := by
    rw [hn]
    exact UInt32.ofNat_toNat
  refine ⟨by omega,?_⟩
  calc raw = (⟨raw,0,false⟩ : ByteReader).rest := rfl
    _ = ByteWriter.u32 magic.1 ++ (ByteWriter.u32 ver.1 ++ (ByteWriter.u32 len.1 ++
          (read ++ (ByteWriter.u32 crc.1 ++ crc.2.rest)))) := by rw [h1,h2,h3,h4,h5]
    _ = encodeFrame read := by
      rw [encodeFrame_eq,frameWith,h6,hmagic.2,not_not.mp hver,hlen,← not_not.mp hcrc,
        List.append_nil]

theorem decodeFrame_eq_some_iff (raw payload : Bytes) :
    decodeFrame raw = some payload ↔ payload.length ≤ kMaxPayload ∧ raw = encodeFrame payload :=
  ⟨encodeFrame_decodeFrame,fun h => h.2 ▸ decodeFrame_encodeFrame h.1⟩

theorem decodeFrame_eq_none {raw : Bytes}
    (h : ∀ q, q.length ≤ kMaxPayload → raw ≠ encodeFrame q) : decodeFrame raw = none := by
  by_contra hne
  obtain ⟨q,hq⟩ := Option.ne_none_iff_exists'.mp hne
  obtain ⟨hlen,heq⟩ := encodeFrame_decodeFrame hq
  exact h q hlen heq

theorem decodeFrame_truncated {p : Bytes} (hp : p.length ≤ kMaxPayload) {n : Nat}
    (hn : n < (encodeFrame p).length) : decodeFrame ((encodeFrame p).take n) = none := by
  refine decodeFrame_eq_none fun q hq heq => ?_
  have hcut := List.take_append_drop n (encodeFrame p)
  rw [heq] at hcut
  have hlen := encodeFrame_length_inj hq hp (hcut.trans (List.append_nil _).symm)
  have htake := congrArg List.length heq
  rw [List.length_take,encodeFrame_length] at htake
  rw [encodeFrame_length] at hn htake
  omega

theorem decodeFrame_extended {p : Bytes} (hp : p.length ≤ kMaxPayload) {tail : Bytes}
    (ht : tail ≠ []) : decodeFrame (encodeFrame p ++ tail) = none := by
  refine decodeFrame_eq_none fun q hq heq => ht ?_
  have hlen := encodeFrame_length_inj hp hq (heq.trans (List.append_nil _).symm)
  have htotal := congrArg List.length heq
  rw [List.length_append,encodeFrame_length,encodeFrame_length] at htotal
  exact List.length_eq_zero_iff.mp (by omega)

theorem decodeFrame_relabelled {p : Bytes} {version length : UInt32}
    (h : version ≠ kPersistenceFormatVersion ∨ length ≠ p.length.toUInt32) :
    decodeFrame (frameWith version length p) = none := by
  refine decodeFrame_eq_none fun q hq heq => ?_
  have htotal : p.length+16 = q.length+16 := by
    rw [← encodeFrame_length,← encodeFrame_length,← heq,encodeFrame_eq]
    simp only [frameWith,List.length_append,u32_length]
  rw [encodeFrame_eq] at heq
  obtain ⟨hv,hm⟩ := frameWith_append_inj (congrArg (· ++ ([] : Bytes)) heq)
  rcases h with h | h
  · exact h hv
  · rw [hm] at h
    exact h (by rw [Nat.add_right_cancel htotal])

theorem save_ok (files : Directory) (key : Str) {bytes : Bytes} (h : bytes.length ≤ kMaxPayload) :
    (save files key bytes).1 = .ok () := by
  have hfits : ¬ kMaxPayload < bytes.length := not_lt.mpr h
  simp [save,saveStep,hfits]

theorem save_eq_stopped (files : Directory) (key : Str) (bytes : Bytes) :
    (save files key bytes).2 = stopped {} key bytes 5 files := by
  unfold save stopped
  split
  · rename_i h
    rw [h]
  · rename_i h
    rw [h]

theorem find?_save (files : Directory) (key : Str) {bytes : Bytes} (h : bytes.length ≤ kMaxPayload) :
    (save files key bytes).2.find? (path key) = some (encodeFrame bytes) := by
  rw [save_eq_stopped,find?_stopped {} files key 5 h,if_neg (by decide),if_pos (by decide)]
  rfl

theorem load_save (files : Directory) (key : Str) {bytes : Bytes} (h : bytes.length ≤ kMaxPayload) :
    load (save files key bytes).2 key = some bytes := by
  rw [save_eq_stopped,load_committed (by decide) files key h]
  exact decodeFrame_encodeFrame h

theorem load_file (files : Directory) (key : Str) (raw : Bytes) :
    load (files.insert (path key) raw) key = decodeFrame raw := by
  simp [load]

/-- The decoder accepts the encoder's image and nothing else. So what is saved is loaded
again, and a frame that is cut off, goes on, or has another version or length is not taken. -/
theorem load_exact (files : Directory) (key : Str) (payload : Bytes) :
    (∀ raw, load (files.insert (path key) raw) key = some payload ↔
      payload.length ≤ kMaxPayload ∧ raw = encodeFrame payload) ∧
    (payload.length ≤ kMaxPayload →
      (save files key payload).1 = .ok () ∧
      (save files key payload).2.find? (path key) = some (encodeFrame payload) ∧
      load (save files key payload).2 key = some payload ∧
      (∀ n, n < (encodeFrame payload).length →
        load (files.insert (path key) ((encodeFrame payload).take n)) key = none) ∧
      (∀ tail, tail ≠ [] →
        load (files.insert (path key) (encodeFrame payload ++ tail)) key = none) ∧
      (∀ version length,
        version ≠ kPersistenceFormatVersion ∨ length ≠ payload.length.toUInt32 →
        load (files.insert (path key) (frameWith version length payload)) key = none)) := by
  simp only [load_file]
  refine ⟨fun raw => decodeFrame_eq_some_iff raw payload,fun h => ?_⟩
  refine ⟨save_ok files key h,find?_save files key h,load_save files key h,?_,?_,?_⟩
  · exact fun n hn => decodeFrame_truncated h hn
  · exact fun tail ht => decodeFrame_extended h ht
  · exact fun version length hne => decodeFrame_relabelled hne

end FilePersistenceStore

end RecoveryPlanner
