import RecoveryPlanner.FileStore
set_option autoImplicit false

/-! `ByteReader` as it runs: it reads its data by index. No sequence of calls reads behind the
end, a failure is for good, and fields are read back as they were written. -/

namespace RecoveryPlanner

namespace ByteReader

/-- `data_[pos_ + i]`; behind the end there is no value. -/
def byteAt (r : ByteReader) (i : Nat) : Option UInt8 := r.data[r.pos+i]?

/-- The `n` bytes from `pos_ + i` on, each put into the value so far. -/
def loopAt {α : Type} (r : ByteReader) (put : α → UInt8 → α) : Nat → Nat → α → Option α
  | _, 0, v => some v
  | i, n+1, v => do
      let b ← r.byteAt i
      loopAt r put (i+1) n (put v b)

def u8At (r : ByteReader) : Option (UInt8 × ByteReader) :=
  if !r.has 1 then some (0,r.fail)
  else do
    let b ← r.byteAt 0
    some (b,r.advance 1)

def u16At (r : ByteReader) : Option (UInt16 × ByteReader) :=
  if !r.has 2 then some (0,r.fail)
  else do
    let a ← r.byteAt 0
    let b ← r.byteAt 1
    some ((a.toNat <<< 8 ||| b.toNat).toUInt16,r.advance 2)

def u32At (r : ByteReader) : Option (UInt32 × ByteReader) :=
  if !r.has 4 then some (0,r.fail)
  else do
    let v ← r.loopAt (fun (v : UInt32) b => v <<< 8 ||| b.toUInt32) 0 4 0
    some (v,r.advance 4)

def u64At (r : ByteReader) : Option (UInt64 × ByteReader) :=
  if !r.has 8 then some (0,r.fail)
  else do
    let v ← r.loopAt (fun (v : UInt64) b => v <<< 8 ||| b.toUInt64) 0 8 0
    some (v,r.advance 8)

def i64At (r : ByteReader) : Option (Int64 × ByteReader) := do
  let (v,r) ← r.u64At
  some (v.toInt64,r)

def takeAt (out : Bytes) (n : Nat) (r : ByteReader) : Option ((Bool × Bytes) × ByteReader) :=
  if !r.has n then some ((false,out),r.fail)
  else do
    let out ← r.loopAt (fun out b => out ++ [b]) 0 n []
    some ((true,out),r.advance n)

def takeBlobAt (out : Bytes) (r : ByteReader) : Option ((Bool × Bytes) × ByteReader) :=
  if !r.has 4 then some ((false,out),r.fail)
  else do
    let (n,r) ← r.u32At
    if !r.has n.toNat then some ((false,out),r.fail) else takeAt out n.toNat r

/-- The loop of `cstring`; it has no value when it does not end within the turns given. -/
def cstringLoopAt : Nat → Str → ByteReader → Option (Str × ByteReader)
  | 0, _, _ => none
  | fuel+1, s, r =>
    if !r.has 1 then some (s,r.fail)
    else do
      let c ← r.byteAt 0
      let r := r.advance 1
      if c = 0 then some (s,r)
      else
        let s := s ++ [c]
        if 4096 < s.length then some (s,r.fail) else cstringLoopAt fuel s r

def cstringAt (r : ByteReader) : Option (Str × ByteReader) := cstringLoopAt 4097 [] r

theorem byteAt_eq (r : ByteReader) (i : Nat) : r.byteAt i = r.rest[i]? :=
  List.getElem?_drop.symm

theorem loopAt_eq {α : Type} {r : ByteReader} (put : α → UInt8 → α) {i n : Nat}
    (h : i+n ≤ r.rest.length) (v : α) :
    r.loopAt put i n v = some (((r.rest.drop i).take n).foldl put v) := by
  induction n generalizing i v with
  | zero => simp [loopAt]
  | succ n ih =>
    have hi : i < r.rest.length := by omega
    rw [loopAt,byteAt_eq,List.getElem?_eq_getElem hi,List.drop_eq_getElem_cons hi,
      List.take_succ_cons,List.foldl_cons]
    exact ih (by omega) (put v r.rest[i])

theorem foldl_append_bytes (w out : Bytes) : w.foldl (fun out b => out ++ [b]) out = out ++ w := by
  induction w generalizing out with
  | nil => simp
  | cons b w ih =>
    rw [List.foldl_cons,ih,List.append_assoc]
    rfl

/-- A read of `n` bytes that looks whether they are there is a window of the scanner. -/
theorem guarded_eq {α : Type} {r : ByteReader} {n : Nat} (dflt : α) (f : Bytes → α)
    {v : Option α} (hv : n ≤ r.rest.length → v = some (f (r.rest.take n))) :
    (if !r.has n then some (dflt,r.fail) else v >>= fun x => some (x,r.advance n)) =
      some (Scan.window n dflt f r) := by
  unfold Scan.window
  cases h : r.has n with
  | false => rfl
  | true =>
    rw [hv ((Cursor.has_iff r n).mp h).2]
    rfl

theorem u8At_eq (r : ByteReader) : r.u8At = some (u8 r) := by
  refine guarded_eq _ _ fun hlen => ?_
  rw [byteAt_eq]
  cases hrest : r.rest with
  | nil =>
    rw [hrest] at hlen
    exact absurd hlen (by decide)
  | cons b bs => rfl

theorem u16At_eq (r : ByteReader) : r.u16At = some (u16 r) := by
  have hv : 2 ≤ r.rest.length →
      ((r.byteAt 0).bind fun a => (r.byteAt 1).bind fun b =>
        some (a.toNat <<< 8 ||| b.toNat).toUInt16) =
      some (fromBigEndian (r.rest.take 2)).toUInt16 := by
    intro hlen
    rw [byteAt_eq,byteAt_eq]
    rcases hrest : r.rest with _ | ⟨a,_ | ⟨b,bs⟩⟩
    · simp [hrest] at hlen
    · simp [hrest] at hlen
    · simp [fromBigEndian]
  have h := guarded_eq 0 (fun w => (fromBigEndian w).toUInt16) hv
  rw [u16,← h,u16At]
  cases r.byteAt 0 with
  | none => rfl
  | some a => cases r.byteAt 1 <;> rfl

theorem u32At_eq (r : ByteReader) : r.u32At = some (u32 r) := by
  refine guarded_eq _ _ fun hlen => ?_
  have hloop := loopAt_eq (r := r) (fun (v : UInt32) b => v <<< 8 ||| b.toUInt32)
    (i := 0) (n := 4) (by omega) 0
  rw [List.drop_zero] at hloop
  exact hloop.trans (congrArg some (toUInt32_foldl (r.rest.take 4) 0))

theorem u64At_eq (r : ByteReader) : r.u64At = some (u64 r) := by
  refine guarded_eq _ _ fun hlen => ?_
  have hloop := loopAt_eq (r := r) (fun (v : UInt64) b => v <<< 8 ||| b.toUInt64)
    (i := 0) (n := 8) (by omega) 0
  rw [List.drop_zero] at hloop
  exact hloop.trans (congrArg some (toUInt64_foldl (r.rest.take 8) 0))

theorem i64At_eq (r : ByteReader) : r.i64At = some (i64 r) := by
  unfold i64At
  rw [u64At_eq]
  rfl

/-- An output vector is assigned as a whole or left alone. -/
def assigned (out : Bytes) : Option Bytes → Bool × Bytes
  | some bytes => (true,bytes)
  | none => (false,out)

theorem takeAt_eq (out : Bytes) (n : Nat) (r : ByteReader) :
    takeAt out n r = some (assigned out (take n r).1,(take n r).2) := by
  unfold takeAt take Scan.window
  cases h : r.has n with
  | false => rfl
  | true =>
    have hlen := ((Cursor.has_iff r n).mp h).2
    have hloop := loopAt_eq (r := r) (fun (out : Bytes) b => out ++ [b]) (i := 0) (n := n)
      (by omega) []
    rw [List.drop_zero,foldl_append_bytes,List.nil_append] at hloop
    rw [hloop]
    rfl

theorem takeBlobAt_eq (out : Bytes) (r : ByteReader) :
    takeBlobAt out r = some (assigned out (takeBlob r).1,(takeBlob r).2) := by
  unfold takeBlobAt takeBlob
  cases h : r.has 4 with
  | false => rfl
  | true =>
    rw [u32At_eq]
    by_cases hn : (u32 r).2.has (u32 r).1.toNat = true
    · have htake := takeAt_eq out (u32 r).1.toNat (u32 r).2
      simpa [hn] using htake
    · simp [hn,take,Scan.window,assigned]

theorem cstringLoopAt_eq (fuel : Nat) {s : Str} {r : ByteReader} (hr : r.failed = false)
    (hs : s.length ≤ 4096) (hf : 4097 ≤ fuel+s.length) :
    cstringLoopAt fuel s r = some (s ++ (cstringLoop r.rest s.length).1,
      { r with pos := r.pos+(cstringLoop r.rest s.length).2.1,
               failed := (cstringLoop r.rest s.length).2.2 }) := by
  induction fuel generalizing s r with
  | zero => omega
  | succ fuel ih =>
    unfold cstringLoopAt
    cases hrest : r.rest with
    | nil =>
      have hh : r.has 1 = false := by
        rw [← Bool.not_eq_true,Cursor.has_iff,hrest]
        simp
      simp [hh,cstringLoop,Cursor.fail]
    | cons b bs =>
      have hh : r.has 1 = true := by
        rw [Cursor.has_iff,hrest]
        exact ⟨hr,by simp⟩
      have hb : r.byteAt 0 = some b := by
        rw [byteAt_eq,hrest]
        rfl
      have hbs : (r.advance 1).rest = bs := by
        rw [Cursor.advance_rest,hrest]
        rfl
      have hnext := ih (s := s ++ [b]) (r := r.advance 1) hr
      rw [hbs,List.length_append,List.length_singleton] at hnext
      by_cases hz : b = 0
      · simp [hh,hb,hz,cstringLoop,Cursor.advance,hr]
      by_cases hl : 4096 < s.length+1
      · simp [hh,hb,hz,hl,cstringLoop,Cursor.advance,Cursor.fail]
      · have hnext := hnext (by omega) (by omega)
        simp only [hh,hb,cstringLoop,Option.bind_eq_bind,Option.bind_some,if_neg hz,if_neg hl,
          List.length_append,List.length_singleton,Bool.not_true,Bool.false_eq_true,if_false]
        refine hnext.trans ?_
        simp [Cursor.advance,Nat.add_assoc,Nat.add_comm 1]

theorem cstringAt_eq (r : ByteReader) : r.cstringAt = some (cstring r) := by
  cases hr : r.failed with
  | false =>
    have h := cstringLoopAt_eq 4097 (s := []) hr (by simp) (by simp)
    rw [cstringAt,h]
    simp [cstring,hr]
  | true =>
    simp [cstringAt,cstringLoopAt,cstring,Cursor.has,hr,Cursor.fail_of_failed hr]

theorem toUInt16_bigEndian (v : UInt16) : (fromBigEndian (bigEndian 2 v.toNat)).toUInt16 = v := by
  have hv : v.toNat%256^2 = v.toNat := Nat.mod_eq_of_lt v.toNat_lt
  rw [fromBigEndian_bigEndian,hv]
  exact UInt16.ofNat_toNat

theorem decodes_u16 (v : UInt16) : Scan.Decodes u16 (ByteWriter.u16 v) True v :=
  Scan.decodes_window (bigEndian_length 2 _) (toUInt16_bigEndian v)

theorem refuses_takeBlob : Scan.Refuses takeBlob none := by
  intro r h
  simp [takeBlob,Cursor.has,h,Cursor.fail_of_failed h]

theorem within_u32 : Scan.Within u32 := Scan.within_window _ _ _
theorem within_u64 : Scan.Within u64 := Scan.within_window _ _ _
theorem within_take (n : Nat) : Scan.Within (take n) := Scan.within_window _ _ _

theorem within_takeBlob : Scan.Within takeBlob := by
  intro r h
  unfold takeBlob
  split
  · obtain ⟨hpos,hdata⟩ := within_u32 r h
    have htake := within_take (u32 r).1.toNat (u32 r).2 (by rw [hdata]; exact hpos)
    rwa [hdata] at htake
  · exact ⟨h,rfl⟩

theorem decodes_takeBlob {bytes : Bytes} (h : bytes.length < 2^32) :
    Scan.Decodes takeBlob (ByteWriter.u32 bytes.length.toUInt32 ++ bytes) True (some bytes) := by
  intro r tail hr hrest
  rw [List.append_assoc] at hrest
  have hlen : bytes.length.toUInt32.toNat = bytes.length := toNat_length_toUInt32 h
  obtain ⟨h1,hnext⟩ := FilePersistenceStore.reads_next (decodes_u32 bytes.length.toUInt32) hr hrest
  obtain ⟨h2,_⟩ := FilePersistenceStore.reads_next (FilePersistenceStore.decodes_take bytes)
    (r := r.advance (ByteWriter.u32 bytes.length.toUInt32).length) hr hnext
  have hhas : r.has 4 = true := by
    rw [Cursor.has_iff,hrest,List.length_append,FilePersistenceStore.u32_length]
    exact ⟨hr,by omega⟩
  refine ⟨fun _ => ?_,fun hn => absurd trivial hn⟩
  rw [takeBlob,if_pos hhas,h1]
  dsimp only
  rw [hlen,h2,Cursor.advance_advance,List.length_append]

theorem assigned_false {out out' : Bytes} {v : Option Bytes} (h : assigned out v = (false,out')) :
    v = none := by
  cases v with
  | none => rfl
  | some bytes => exact absurd (Prod.mk.inj h).1 (by simp)

theorem take_none_failed {n : Nat} {r : ByteReader} (h : (take n r).1 = none) :
    (take n r).2.failed = true := by
  unfold take Scan.window at h ⊢
  split at h
  · exact absurd h (by simp)
  · rename_i hn
    rw [if_neg hn]
    rfl

theorem takeBlob_none_failed {r : ByteReader} (h : (takeBlob r).1 = none) :
    (takeBlob r).2.failed = true := by
  unfold takeBlob at h ⊢
  split at h
  · rename_i hn
    rw [if_pos hn]
    exact take_none_failed h
  · rename_i hn
    rw [if_neg hn]
    rfl

theorem refuses_cstring : Scan.Refuses cstring [] := by
  intro r h
  simp [cstring,h]

theorem cstringLoop_le (bs : Bytes) (size : Nat) : (cstringLoop bs size).2.1 ≤ bs.length := by
  induction bs generalizing size with
  | nil => exact Nat.le_refl 0
  | cons b bs ih =>
    unfold cstringLoop
    split
    · exact Nat.succ_le_succ (Nat.zero_le _)
    · split
      · exact Nat.succ_le_succ (Nat.zero_le _)
      · exact Nat.succ_le_succ (ih (size+1))

theorem within_cstring : Scan.Within cstring := by
  intro r h
  unfold cstring
  split
  · exact ⟨h,rfl⟩
  · have hle := cstringLoop_le r.rest 0
    rw [Cursor.rest,List.length_drop] at hle
    exact ⟨by show r.pos+(cstringLoop r.rest 0).2.1 ≤ r.data.length; rw [Cursor.rest]; omega,rfl⟩

end ByteReader

inductive ReadCall where
  | u8 | u16 | u32 | u64 | i64
  | take (out : Bytes) (n : Nat)
  | takeBlob (out : Bytes)
  | cstring

inductive ReadResult where
  | u8 (v : UInt8)
  | u16 (v : UInt16)
  | u32 (v : UInt32)
  | u64 (v : UInt64)
  | i64 (v : Int64)
  | taken (v : Bool × Bytes)
  | cstring (s : Str)
  deriving DecidableEq

namespace ReadCall

open Scan

def perform : ReadCall → ByteReader → Option (ReadResult × ByteReader)
  | u8, r => r.u8At.map fun x => (.u8 x.1,x.2)
  | u16, r => r.u16At.map fun x => (.u16 x.1,x.2)
  | u32, r => r.u32At.map fun x => (.u32 x.1,x.2)
  | u64, r => r.u64At.map fun x => (.u64 x.1,x.2)
  | i64, r => r.i64At.map fun x => (.i64 x.1,x.2)
  | take out n, r => (r.takeAt out n).map fun x => (.taken x.1,x.2)
  | takeBlob out, r => (r.takeBlobAt out).map fun x => (.taken x.1,x.2)
  | cstring, r => r.cstringAt.map fun x => (.cstring x.1,x.2)

/-- The calls one after the other; without a value when one of them reads behind the end. -/
def run : List ReadCall → ByteReader → Option (List ReadResult × ByteReader)
  | [], r => some ([],r)
  | c :: cs, r => do
      let (x,r) ← c.perform r
      let (xs,r) ← run cs r
      some (x :: xs,r)

def refused : ReadCall → ReadResult
  | u8 => .u8 0
  | u16 => .u16 0
  | u32 => .u32 0
  | u64 => .u64 0
  | i64 => .i64 0
  | take out _ => .taken (false,out)
  | takeBlob out => .taken (false,out)
  | cstring => .cstring []

def scan : ReadCall → Scan UInt8 ReadResult
  | u8 => ByteReader.u8 >>= fun v => pure (.u8 v)
  | u16 => ByteReader.u16 >>= fun v => pure (.u16 v)
  | u32 => ByteReader.u32 >>= fun v => pure (.u32 v)
  | u64 => ByteReader.u64 >>= fun v => pure (.u64 v)
  | i64 => ByteReader.i64 >>= fun v => pure (.i64 v)
  | take out n => ByteReader.take n >>= fun v => pure (.taken (ByteReader.assigned out v))
  | takeBlob out => ByteReader.takeBlob >>= fun v => pure (.taken (ByteReader.assigned out v))
  | cstring => ByteReader.cstring >>= fun s => pure (.cstring s)

theorem perform_eq (c : ReadCall) (r : ByteReader) : c.perform r = some (c.scan r) := by
  cases c with
  | u8 => simp only [perform,ByteReader.u8At_eq]; rfl
  | u16 => simp only [perform,ByteReader.u16At_eq]; rfl
  | u32 => simp only [perform,ByteReader.u32At_eq]; rfl
  | u64 => simp only [perform,ByteReader.u64At_eq]; rfl
  | i64 => simp only [perform,ByteReader.i64At_eq]; rfl
  | take out n => simp only [perform,ByteReader.takeAt_eq]; rfl
  | takeBlob out => simp only [perform,ByteReader.takeBlobAt_eq]; rfl
  | cstring => simp only [perform,ByteReader.cstringAt_eq]; rfl

theorem refuses_scan (c : ReadCall) : Refuses c.scan c.refused := by
  cases c with
  | u8 => exact (refuses_window _ _ _).map _
  | u16 => exact (refuses_window _ _ _).map _
  | u32 => exact (refuses_window _ _ _).map _
  | u64 => exact (refuses_window _ _ _).map _
  | i64 => exact ((refuses_window _ _ _).map _).map _
  | take out n => exact (refuses_window _ _ _).map _
  | takeBlob out => exact ByteReader.refuses_takeBlob.map _
  | cstring => exact ByteReader.refuses_cstring.map _

theorem within_scan (c : ReadCall) : Within c.scan := by
  cases c with
  | u8 => exact (within_window _ _ _).map _
  | u16 => exact (within_window _ _ _).map _
  | u32 => exact ByteReader.within_u32.map _
  | u64 => exact ByteReader.within_u64.map _
  | i64 => exact (ByteReader.within_u64.map _).map _
  | take out n => exact (ByteReader.within_take n).map _
  | takeBlob out => exact ByteReader.within_takeBlob.map _
  | cstring => exact ByteReader.within_cstring.map _

theorem run_cons (c : ReadCall) (cs : List ReadCall) (r : ByteReader) :
    run (c :: cs) r = (run cs (c.scan r).2).map fun x => ((c.scan r).1 :: x.1,x.2) := by
  rw [run,perform_eq]
  cases h : run cs (c.scan r).2 <;> simp [h]

/-- No sequence of calls reads behind the end or moves there. -/
theorem run_within (cs : List ReadCall) {r : ByteReader} (h : r.pos ≤ r.data.length) :
    ∃ xs r', run cs r = some (xs,r') ∧ xs.length = cs.length ∧ r'.pos ≤ r.data.length ∧
      r'.data = r.data := by
  induction cs generalizing r with
  | nil => exact ⟨[],r,rfl,rfl,h,rfl⟩
  | cons c cs ih =>
    obtain ⟨hpos,hdata⟩ := within_scan c r h
    obtain ⟨xs,r',hrun,hlen,hpos',hdata'⟩ := ih (r := (c.scan r).2) (by rw [hdata]; exact hpos)
    refine ⟨(c.scan r).1 :: xs,r',?_,?_,by rwa [hdata] at hpos',hdata'.trans hdata⟩
    · rw [run_cons,hrun]
      rfl
    · rw [List.length_cons,List.length_cons,hlen]

theorem run_refused (cs : List ReadCall) {r : ByteReader} (h : r.failed = true) :
    run cs r = some (cs.map refused,r) := by
  induction cs with
  | nil => rfl
  | cons c cs ih =>
    rw [run_cons,refuses_scan c r h,ih]
    rfl

theorem failed_of_false {c : ReadCall} {r r' : ByteReader} {out : Bytes}
    (h : c.perform r = some (.taken (false,out),r')) : r'.failed = true := by
  rw [perform_eq] at h
  obtain ⟨hres,rfl⟩ := Prod.mk.inj (Option.some.inj h)
  cases c with
  | take old n =>
    exact ByteReader.take_none_failed (ByteReader.assigned_false (ReadResult.taken.inj hres))
  | takeBlob old =>
    exact ByteReader.takeBlob_none_failed (ByteReader.assigned_false (ReadResult.taken.inj hres))
  | _ => exact absurd hres (fun hne => ReadResult.noConfusion hne)

end ReadCall

inductive Field where
  | u8 (v : UInt8)
  | u16 (v : UInt16)
  | u32 (v : UInt32)
  | u64 (v : UInt64)
  | i64 (v : Int64)
  | bytes (v : Bytes)
  | blob (v : Bytes) (short : v.length < 2^32)
  | cstring (s : Str) (plain : ∀ b ∈ s, b ≠ 0) (short : s.length ≤ 4096)

namespace Field

open Scan

def write : Field → Bytes
  | u8 v => ByteWriter.u8 v
  | u16 v => ByteWriter.u16 v
  | u32 v => ByteWriter.u32 v
  | u64 v => ByteWriter.u64 v
  | i64 v => ByteWriter.i64 v
  | bytes v => ByteWriter.bytes v
  | blob v _ => ByteWriter.u32 v.length.toUInt32 ++ ByteWriter.bytes v
  | cstring s _ _ => ByteWriter.cstring s

def call (out : Bytes) : Field → ReadCall
  | u8 _ => .u8
  | u16 _ => .u16
  | u32 _ => .u32
  | u64 _ => .u64
  | i64 _ => .i64
  | bytes v => .take out v.length
  | blob _ _ => .takeBlob out
  | cstring _ _ _ => .cstring

def result : Field → ReadResult
  | u8 v => .u8 v
  | u16 v => .u16 v
  | u32 v => .u32 v
  | u64 v => .u64 v
  | i64 v => .i64 v
  | bytes v => .taken (true,v)
  | blob v _ => .taken (true,v)
  | cstring s _ _ => .cstring s

theorem decodes_call (f : Field) (out : Bytes) : Decodes (f.call out).scan f.write True f.result := by
  cases f with
  | u8 v => exact (ByteReader.decodes_u8 v).map rfl
  | u16 v => exact (ByteReader.decodes_u16 v).map rfl
  | u32 v => exact (ByteReader.decodes_u32 v).map rfl
  | u64 v => exact (ByteReader.decodes_u64 v).map rfl
  | i64 v => exact (ByteReader.decodes_i64 v).map rfl
  | bytes v => exact (FilePersistenceStore.decodes_take v).map rfl
  | blob v short => exact (ByteReader.decodes_takeBlob short).map rfl
  | cstring s plain short =>
    have h := ByteReader.decodes_cstring s
    rw [cut_eq_self plain] at h
    exact (h.congr (by simpa using short)).map rfl

def writeAll (fs : List (Field × Bytes)) : Bytes := fs.flatMap fun f => f.1.write

theorem run_calls (fs : List (Field × Bytes)) (tail : Bytes) {r : ByteReader}
    (hr : r.failed = false) (h : r.rest = writeAll fs ++ tail) :
    ReadCall.run (fs.map fun f => f.1.call f.2) r =
      some (fs.map fun f => f.1.result,r.advance (writeAll fs).length) := by
  induction fs generalizing r with
  | nil => rfl
  | cons f fs ih =>
    have hrest : r.rest = f.1.write ++ (writeAll fs ++ tail) := by
      rw [h,← List.append_assoc]
      rfl
    obtain ⟨hread,hnext⟩ := FilePersistenceStore.reads_next (decodes_call f.1 f.2) hr hrest
    have hlen : (writeAll (f :: fs)).length = f.1.write.length+(writeAll fs).length :=
      List.length_append
    rw [List.map_cons,ReadCall.run_cons,hread,ih (r := r.advance f.1.write.length) hr hnext,hlen,
      ← Cursor.advance_advance]
    rfl

end Field

/-- The reader is safe on every input, its failures are for good, and what the writer wrote is
read back to its end. -/
theorem byteReader_safe (data : Bytes) (calls : List ReadCall) (fs : List (Field × Bytes)) :
    (∃ results r, ReadCall.run calls { data := data } = some (results,r) ∧
      results.length = calls.length ∧ r.pos ≤ data.length ∧
      (r.failed = true → ∀ later, ReadCall.run later r = some (later.map ReadCall.refused,r))) ∧
    (∀ (c : ReadCall) (r r' : ByteReader) (out : Bytes),
      c.perform r = some (.taken (false,out),r') → r'.failed = true) ∧
    ReadCall.run (fs.map fun f => f.1.call f.2) { data := Field.writeAll fs } =
      some (fs.map fun f => f.1.result,
        { data := Field.writeAll fs, pos := (Field.writeAll fs).length, failed := false }) := by
  refine ⟨?_,fun c r r' out => ReadCall.failed_of_false,?_⟩
  · obtain ⟨results,r,hrun,hlen,hpos,_⟩ :=
      ReadCall.run_within calls (r := { data := data }) (Nat.zero_le _)
    exact ⟨results,r,hrun,hlen,hpos,fun hf later => ReadCall.run_refused later hf⟩
  · have h := Field.run_calls fs [] (r := { data := Field.writeAll fs }) rfl
      (List.append_nil _).symm
    rw [h]
    simp [Cursor.advance]

end RecoveryPlanner
