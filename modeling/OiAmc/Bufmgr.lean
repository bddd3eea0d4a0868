import OiAmc.ByteBuffer
import OiAmc.PartialMachine
import Mathlib.Data.List.Nodup
import Mathlib.Data.List.Perm.Basic

namespace OiAmc.Bufmgr

open ByteBuffer PtrWords

/-- The size of a pointer, and of a bufmgr_buffer. -/
def ptrsz : Nat := 8

def intMax : Int := 2147483647

/-- Some memory: size octets from an address on. -/
structure Region where
  base : Nat
  size : Int
  base_pos : 0 < base
  size_int : -2147483648 ≤ size ∧ size ≤ intMax
  fits : base + size < 0x10000000000000000

structure Ctl where
  base : Nat
  size : Int
  bufsize : Int
  rbufsize : Int
  rnum : Int
  used : Int
  lastbuf : Int
  free : Nat

abbrev Mem := Nat → UInt8

def intMul (a b : Int) : Option Int :=
  if -2147483648 ≤ a * b ∧ a * b ≤ intMax then some (a * b) else none

/-- The link word of a buffer. One outside the region has no outcome. -/
def loadNext (rep : PtrRep) (rg : Region) (mem : Mem) (a : Nat) : Option Nat :=
  if rg.base ≤ a ∧ a + ptrsz ≤ rg.base + rg.size then some (load rep mem a) else none

def storeNext (rep : PtrRep) (rg : Region) (mem : Mem) (a p : Nat) : Option Mem :=
  if rg.base ≤ a ∧ a + ptrsz ≤ rg.base + rg.size then some (store rep mem a p) else none

def bufferAt (base : Nat) (rbufsize : Int) (i : Nat) : Nat := (base + i * rbufsize).toNat

/-- The first rounds of the loop of bufmgr_open. -/
def linkBuffers (rep : PtrRep) (rg : Region) (mem : Mem) (rbufsize rnum : Int) : Nat → Option Mem
  | 0 => some mem
  | i + 1 => do
      let mem ← linkBuffers rep rg mem rbufsize rnum i
      storeNext rep rg mem (bufferAt rg.base rbufsize i)
        (if i ≠ rnum - 1 then bufferAt rg.base rbufsize (i + 1) else 0)

/-- A handle and the memory as it is then, or a null handle. -/
def bufmgrOpen (rep : PtrRep) (rg : Region) (mem : Mem) (bufsize : Int) : Option (Option (Ctl × Mem)) :=
  if rg.base = 0 ∨ bufsize ≤ 0 then some none
  else if intMax < bufsize + (ptrsz - 1) then none
  else
    -- a sum of type size_t, taken as an int
    let rbufsize : Int := (ptrsz + (bufsize + (ptrsz - 1)) / ptrsz * ptrsz).bmod 0x100000000
    if rg.size < rbufsize then some none
    else do
      let rnum := rg.size.tdiv rbufsize
      let last ← intMul (rnum - 1) rbufsize
      let mem ← linkBuffers rep rg mem rbufsize rnum rnum.toNat
      return some (⟨rg.base, rg.size, bufsize, rbufsize, rnum, 0, rg.base + last, rg.base⟩, mem)

def bufmgrAlloc (rep : PtrRep) (rg : Region) (ctl : Ctl) (mem : Mem) : Option (Ctl × Nat) :=
  if ctl.free = 0 then some (ctl, 0)
  else do
    let next ← loadNext rep rg mem ctl.free
    return ({ ctl with free := next, used := ctl.used + 1 }, ctl.free + ptrsz)

def bufmgrFree (rep : PtrRep) (rg : Region) (ctl : Ctl) (mem : Mem) (buf : Nat) : Option (Ctl × Mem) :=
  if buf = 0 then some (ctl, mem)
  else if buf < ctl.base + ptrsz ∨ buf > ctl.lastbuf + ptrsz then some (ctl, mem)
  else do
    let mem ← storeNext rep rg mem (buf - ptrsz) ctl.free
    return ({ ctl with free := buf - ptrsz, used := ctl.used - 1 }, mem)

/-- A handle in use, with the buffers that are outstanding. -/
structure Client where
  ctl : Ctl
  mem : Mem
  out : List Nat

inductive Op
  | alloc
  | free (buf : Nat)
  | write (buf off : Nat) (octets : List UInt8)

def step (rep : PtrRep) (rg : Region) (s : Client) : Op → Option (Client × Nat)
  | .alloc => do
      let r ← bufmgrAlloc rep rg s.ctl s.mem
      return ({ s with ctl := r.1, out := if r.2 ≠ 0 then r.2 :: s.out else s.out }, r.2)
  | .free buf =>
      if buf ∈ s.out then do
        let r ← bufmgrFree rep rg s.ctl s.mem buf
        return (⟨r.1, r.2, s.out.erase buf⟩, 0)
      else some (s, 0)
  | .write buf off octets =>
      if buf ∈ s.out ∧ off + octets.length ≤ s.ctl.bufsize then
        some ({ s with mem := overlay s.mem (buf + off) octets.length fun i => octets.getD i 0 }, 0)
      else some (s, 0)

/-- Two ranges of octets have none in common. -/
def Apart (a n b m : Int) : Prop := a + n ≤ b ∨ b + m ≤ a

structure Shared (rep : PtrRep) (rg : Region) (s : Client) (free : List Nat) : Prop where
  inside : ∀ b ∈ s.out, (rg.base : Int) ≤ b ∧ b + s.ctl.bufsize ≤ rg.base + rg.size
  disjoint : s.out.Pairwise fun b b' : Nat => Apart b s.ctl.bufsize b' s.ctl.bufsize
  thread : Thread rep s.mem s.ctl.free free
  links : ∀ a ∈ free, ∀ b ∈ s.out, Apart a ptrsz b s.ctl.bufsize
  counts : s.ctl.used + free.length = s.ctl.rnum
  exhausted : bufmgrAlloc rep rg s.ctl s.mem = some (s.ctl, 0) ↔ s.out.length = s.ctl.rnum

/-- Every accepted region and buffer size serves every client. -/
def Sound (rep : PtrRep) (rg : Region) (bufsize : Int) : Prop :=
  ∀ mem, ∃ r, bufmgrOpen rep rg mem bufsize = some r ∧ ∀ ctl mem', r = some (ctl, mem') →
    ∀ ops, ∃ s ps free, PartialMachine.run (step rep rg) ⟨ctl, mem', []⟩ ops = some (s, ps) ∧
      Shared rep rg s free

end OiAmc.Bufmgr

namespace OiAmc.BufmgrSound

open ByteBuffer PtrWords PartialMachine Bufmgr

variable {rep : PtrRep} {rg : Region} {bufsize : Int} {R n : Nat} {a b c : Nat} {s : Client}
  {free out : List Nat}

/-- The region is cut into n buffers of R octets, each with a link word and bufsize octets. -/
structure Cut (rg : Region) (bufsize : Int) (R n : Nat) : Prop where
  nonneg : 0 ≤ bufsize
  room : ptrsz + bufsize ≤ R
  some : 0 < n
  fits : ((n * R : Nat) : Int) ≤ rg.size

def slot (rg : Region) (R i : Nat) : Nat := rg.base + i * R

def slots (rg : Region) (R n : Nat) : List Nat := (List.range n).map (slot rg R)

theorem mem_slots : a ∈ slots rg R n ↔ ∃ i < n, slot rg R i = a := by
  simp only [slots, List.mem_map, List.mem_range]

theorem bufferAt_eq (i : Nat) : bufferAt rg.base R i = slot rg R i := by
  rw [bufferAt, slot]
  omega

theorem slot_inside (h : Cut rg bufsize R n) (ha : a ∈ slots rg R n) :
    rg.base ≤ a ∧ (a + R : Int) ≤ rg.base + rg.size ∧ a ≤ slot rg R (n - 1) := by
  obtain ⟨i, hi, rfl⟩ := mem_slots.mp ha
  have hle : (i + 1) * R ≤ n * R := Nat.mul_le_mul_right R hi
  have hlast : i * R ≤ (n - 1) * R := Nat.mul_le_mul_right R (by omega)
  have hfits := h.fits
  rw [Nat.succ_mul] at hle
  simp only [slot]
  exact ⟨Nat.le_add_right _ _, by omega, by omega⟩

theorem slots_apart (ha : a ∈ slots rg R n) (hc : c ∈ slots rg R n) (hne : a ≠ c) :
    a + R ≤ c ∨ c + R ≤ a := by
  obtain ⟨i, _, rfl⟩ := mem_slots.mp ha
  obtain ⟨j, _, rfl⟩ := mem_slots.mp hc
  simp only [slot] at hne ⊢
  rcases Nat.lt_trichotomy i j with hij | rfl | hij
  · have hle : (i + 1) * R ≤ j * R := Nat.mul_le_mul_right R hij
    rw [Nat.succ_mul] at hle
    exact .inl (by omega)
  · exact absurd rfl hne
  · have hle : (j + 1) * R ≤ i * R := Nat.mul_le_mul_right R hij
    rw [Nat.succ_mul] at hle
    exact .inr (by omega)

theorem slots_nodup (h : Cut rg bufsize R n) : (slots rg R n).Nodup := by
  have hR : 0 < R := by
    have h1 := h.room
    have h2 := h.nonneg
    have h3 : ptrsz = 8 := rfl
    omega
  refine List.Nodup.map ?_ List.nodup_range
  intro i j hij
  simp only [slot] at hij
  exact Nat.eq_of_mul_eq_mul_right hR (by omega)

structure Inv (rep : PtrRep) (rg : Region) (bufsize : Int) (R n : Nat) (s : Client)
    (free out : List Nat) : Prop where
  ctl : s.ctl.base = rg.base ∧ s.ctl.bufsize = bufsize ∧ s.ctl.rnum = n ∧
    s.ctl.lastbuf = slot rg R (n - 1)
  used : s.ctl.used = out.length
  thread : Thread rep s.mem s.ctl.free free
  all : (free ++ out).Perm (slots rg R n)
  handed : s.out = out.map (· + ptrsz)

theorem Inv.free_slot (h : Inv rep rg bufsize R n s free out) (ha : a ∈ free) : a ∈ slots rg R n :=
  h.all.subset (List.mem_append_left _ ha)

theorem Inv.out_slot (h : Inv rep rg bufsize R n s free out) (ha : a ∈ out) : a ∈ slots rg R n :=
  h.all.subset (List.mem_append_right _ ha)

theorem Inv.nodup (hc : Cut rg bufsize R n) (h : Inv rep rg bufsize R n s free out) :
    (free ++ out).Nodup := h.all.nodup_iff.mpr (slots_nodup hc)

theorem Inv.length (h : Inv rep rg bufsize R n s free out) : free.length + out.length = n := by
  rw [← List.length_append, h.all.length_eq, slots, List.length_map, List.length_range]

theorem Inv.link_apart (hc : Cut rg bufsize R n) (h : Inv rep rg bufsize R n s free out) (ha : a ∈ free)
    (hb : b ∈ s.out) : Apart a ptrsz b bufsize := by
  rw [h.handed] at hb
  obtain ⟨c, hcm, rfl⟩ := List.mem_map.mp hb
  have hne : a ≠ c := fun he => (List.nodup_append.mp (h.nodup hc)).2.2 a ha c hcm he
  have hap := slots_apart (h.free_slot ha) (h.out_slot hcm) hne
  have hroom := hc.room
  have hnonneg := hc.nonneg
  simp only [Apart]
  omega

theorem link_inside (hc : Cut rg bufsize R n) (ha : a ∈ slots rg R n) :
    rg.base ≤ a ∧ (a + ptrsz : Int) ≤ rg.base + rg.size := by
  obtain ⟨hbase, hend, _⟩ := slot_inside hc ha
  have hroom := hc.room
  have hnonneg := hc.nonneg
  exact ⟨hbase, by omega⟩

theorem Inv.alloc_null (h : Inv rep rg bufsize R n s free out) :
    bufmgrAlloc rep rg s.ctl s.mem = some (s.ctl, 0) ↔ s.out.length = s.ctl.rnum := by
  have hlen := h.length
  have hout : s.out.length = out.length := by rw [h.handed, List.length_map]
  have hempty : free = [] ↔ out.length = n := by rw [← List.length_eq_zero_iff]; omega
  rw [h.ctl.2.2.1, hout, Nat.cast_inj, ← hempty, ← h.thread.nil_iff, bufmgrAlloc]
  constructor
  · intro halloc
    by_contra hne
    rw [if_neg hne] at halloc
    obtain ⟨p, _, hp⟩ := Option.bind_eq_some_iff.mp halloc
    have h0 := (Prod.mk.inj (Option.some.inj hp)).2
    simp only [ptrsz] at h0
    omega
  · intro h0
    rw [if_pos h0]

theorem Inv.shared (hc : Cut rg bufsize R n) (h : Inv rep rg bufsize R n s free out) :
    Shared rep rg s free := by
  have hbuf := h.ctl.2.1
  refine ⟨?_, ?_, h.thread, ?_, ?_, h.alloc_null⟩
  · intro b hb
    rw [h.handed] at hb
    obtain ⟨a, ha, rfl⟩ := List.mem_map.mp hb
    obtain ⟨hbase, hend, _⟩ := slot_inside hc (h.out_slot ha)
    have hroom := hc.room
    rw [hbuf]
    omega
  · rw [h.handed, hbuf, List.pairwise_map]
    have hnd := (List.nodup_append.mp (h.nodup hc)).2.1
    refine hnd.imp_of_mem ?_
    intro a c ha hcm hne
    have hap := slots_apart (h.out_slot ha) (h.out_slot hcm) hne
    have hroom := hc.room
    simp only [Apart]
    omega
  · intro a ha b hb
    rw [hbuf]
    exact h.link_apart hc ha hb
  · rw [h.used, h.ctl.2.2.1, ← h.length]
    push_cast
    ring

theorem Inv.alloc (hc : Cut rg bufsize R n) (h : Inv rep rg bufsize R n s free out) :
    ∃ s' p free' out', step rep rg s .alloc = some (s', p) ∧ Inv rep rg bufsize R n s' free' out' := by
  obtain ⟨ctl, mem, hand⟩ := s
  obtain ⟨hctl, hused, hthread, hall, hhand⟩ := h
  have hslot : ∀ a ∈ free, a ∈ slots rg R n := fun a ha => hall.subset (List.mem_append_left _ ha)
  simp only at hctl hused hthread hhand
  generalize hfree : ctl.free = a at hthread
  cases hthread with
  | nil =>
      have halloc : bufmgrAlloc rep rg ctl mem = some (ctl, 0) := by rw [bufmgrAlloc, if_pos hfree]
      refine ⟨⟨ctl, mem, hand⟩, 0, [], out, ?_, hctl, hused, ?_, hall, hhand⟩
      · simp [step, halloc]
      · rw [hfree]
        exact .nil
  | @cons _ l ha hrest =>
      have hload : loadNext rep rg mem ctl.free = some (load rep mem a) := by
        rw [hfree, loadNext, if_pos (link_inside hc (hslot a List.mem_cons_self))]
      have halloc : bufmgrAlloc rep rg ctl mem =
          some ({ ctl with free := load rep mem a, used := ctl.used + 1 }, a + ptrsz) := by
        rw [bufmgrAlloc, if_neg (hfree ▸ ha), hload, hfree]
        rfl
      have hne : a + ptrsz ≠ 0 := by simp only [ptrsz]; omega
      refine ⟨⟨{ ctl with free := load rep mem a, used := ctl.used + 1 }, mem, (a + ptrsz) :: hand⟩, a + ptrsz, l,
        a :: out, ?_, hctl, ?_, hrest, ?_, ?_⟩
      · simp only [step, halloc, Option.bind_eq_bind, Option.bind_some, if_pos hne]
        rfl
      · simp only [hused, List.length_cons, Nat.cast_succ]
      · exact List.perm_middle.trans hall
      · simp only [hhand, List.map_cons]

theorem Inv.free_lt (hc : Cut rg bufsize R n) (h : Inv rep rg bufsize R n s free out) :
    s.ctl.free < 0x10000000000000000 := by
  have hslot := fun a (ha : a ∈ free) => slot_inside hc (h.free_slot ha)
  have hthread := h.thread
  have hfits := rg.fits
  generalize s.ctl.free = a at hthread
  cases hthread with
  | nil => omega
  | cons _ _ =>
      obtain ⟨_, hend, _⟩ := hslot a List.mem_cons_self
      omega

theorem Inv.free_out (hc : Cut rg bufsize R n) (h : Inv rep rg bufsize R n s free out) (hb : b ∈ s.out) :
    ∃ s' p free' out', step rep rg s (.free b) = some (s', p) ∧
      Inv rep rg bufsize R n s' free' out' := by
  have hb' := hb
  rw [h.handed] at hb'
  obtain ⟨c, hcm, rfl⟩ := List.mem_map.mp hb'
  obtain ⟨hbase, _, hlast⟩ := slot_inside hc (h.out_slot hcm)
  have hpos := rg.base_pos
  have hlink := link_inside hc (h.out_slot hcm)
  have hnd := List.nodup_append.mp (h.nodup hc)
  have hptr : 8 ≤ R := by
    have hroom := hc.room
    have hnonneg := hc.nonneg
    simp only [ptrsz] at hroom
    omega
  have hfree : bufmgrFree rep rg s.ctl s.mem (c + ptrsz) =
      some ({ s.ctl with free := c, used := s.ctl.used - 1 }, store rep s.mem c s.ctl.free) := by
    rw [bufmgrFree, if_neg (by omega), if_neg (by rw [h.ctl.1, h.ctl.2.2.2]; push_cast; omega),
      Nat.add_sub_cancel, storeNext, if_pos hlink]
    rfl
  refine ⟨⟨{ s.ctl with free := c, used := s.ctl.used - 1 }, store rep s.mem c s.ctl.free,
    s.out.erase (c + ptrsz)⟩, 0, c :: free, out.erase c, ?_, h.ctl, ?_, ?_, ?_, ?_⟩
  · simp only [step, if_pos hb, hfree]
    rfl
  · have hlen := List.length_pos_of_mem hcm
    simp only [h.used, List.length_erase_of_mem hcm]
    omega
  · refine h.thread.push (by omega) (h.free_lt hc) ?_
    intro a ha
    have hap := slots_apart (h.free_slot ha) (h.out_slot hcm) (hnd.2.2 a ha c hcm)
    omega
  · have hout := List.perm_cons_erase hcm
    exact (List.perm_middle.symm.trans (hout.symm.append_left free)).trans h.all
  · simp only [h.handed]
    exact (List.map_erase (add_left_injective ptrsz) out).symm

theorem Inv.write (hc : Cut rg bufsize R n) (h : Inv rep rg bufsize R n s free out) {off m : Nat}
    {src : Nat → UInt8} (hb : b ∈ s.out) (hoff : (off + m : Int) ≤ bufsize) :
    Inv rep rg bufsize R n { s with mem := overlay s.mem (b + off) m src } free out := by
  refine ⟨h.ctl, h.used, h.thread.congr ?_, h.all, h.handed⟩
  intro a ha
  have hap := h.link_apart hc ha hb
  simp only [Apart, ptrsz] at hap
  exact load_overlay (by omega)

theorem Inv.step (hc : Cut rg bufsize R n) (h : Inv rep rg bufsize R n s free out) (op : Op) :
    ∃ s' p free' out', step rep rg s op = some (s', p) ∧ Inv rep rg bufsize R n s' free' out' := by
  cases op with
  | alloc => exact h.alloc hc
  | free b =>
      by_cases hb : b ∈ s.out
      · exact h.free_out hc hb
      · exact ⟨s, 0, free, out, if_neg hb, h⟩
  | write b off octets =>
      by_cases hb : b ∈ s.out ∧ off + octets.length ≤ s.ctl.bufsize
      · refine ⟨_, 0, free, out, if_pos hb, h.write hc hb.1 ?_⟩
        rw [← h.ctl.2.1]
        exact hb.2
      · exact ⟨s, 0, free, out, if_neg hb, h⟩

theorem Inv.run (hc : Cut rg bufsize R n) (h : Inv rep rg bufsize R n s free out) (ops : List Op) :
    ∃ s' ps free', run (Bufmgr.step rep rg) s ops = some (s', ps) ∧ Shared rep rg s' free' := by
  obtain ⟨s', ps, hrun, free', out', h'⟩ := guarded_run
    (I := fun s => ∃ free out, Inv rep rg bufsize R n s free out)
    (fun s op ⟨free, out, h⟩ _ => by
      obtain ⟨s', p, free', out', hs, h'⟩ := h.step hc op
      exact ⟨s', p, hs, free', out', h'⟩)
    ⟨free, out, h⟩ (guarded_true s ops)
  exact ⟨s', ps, free', hrun, h'.shared hc⟩

def target (rg : Region) (R n i : Nat) : Nat := if i + 1 = n then 0 else slot rg R (i + 1)

theorem target_lt (hc : Cut rg bufsize R n) {i : Nat} (hi : i < n) :
    target rg R n i < 0x10000000000000000 := by
  have hfits := rg.fits
  rw [target]
  split_ifs with he
  · omega
  · obtain ⟨_, hend, _⟩ := slot_inside hc (mem_slots.mpr ⟨i + 1, by omega, rfl⟩)
    omega

theorem linkBuffers_links (hc : Cut rg bufsize R n) (mem : Mem) {i : Nat} (hi : i ≤ n) :
    ∃ mem', linkBuffers rep rg mem R n i = some mem' ∧
      ∀ j < i, load rep mem' (slot rg R j) = target rg R n j := by
  induction i with
  | zero => exact ⟨mem, rfl, nofun⟩
  | succ i ih =>
      obtain ⟨mem', hlink, hload⟩ := ih (by omega)
      have hmem : slot rg R i ∈ slots rg R n := mem_slots.mpr ⟨i, by omega, rfl⟩
      have htarget : (if (i : Int) ≠ (n : Int) - 1 then bufferAt rg.base R (i + 1) else 0) =
          target rg R n i := by
        rw [target, bufferAt_eq]
        split_ifs <;> first | rfl | omega
      refine ⟨store rep mem' (slot rg R i) (target rg R n i), ?_, ?_⟩
      · rw [linkBuffers, hlink, htarget, bufferAt_eq]
        exact if_pos (link_inside hc hmem)
      · intro j hj
        rcases Nat.lt_or_eq_of_le (Nat.lt_succ_iff.mp hj) with hj | rfl
        · rw [load_store_of_apart, hload j hj]
          have hptr : 8 ≤ R := by
            have hroom := hc.room
            have hnonneg := hc.nonneg
            simp only [ptrsz] at hroom
            omega
          have hle : (j + 1) * R ≤ i * R := Nat.mul_le_mul_right R hj
          rw [Nat.succ_mul] at hle
          simp only [slot]
          omega
        · exact load_store (target_lt hc (by omega))

theorem linked_thread {mem : Mem} (hload : ∀ j < n, load rep mem (slot rg R j) = target rg R n j)
    (m : Nat) {k : Nat} (hk : k + m = n) :
    Thread rep mem (if k = n then 0 else slot rg R k) ((List.range' k m).map (slot rg R)) := by
  induction m generalizing k with
  | zero =>
      rw [if_pos (by omega)]
      exact .nil
  | succ m ih =>
      have hpos := rg.base_pos
      rw [if_neg (by omega), List.range'_succ, List.map_cons]
      refine .cons (by simp only [slot]; omega) ?_
      rw [hload k (by omega)]
      exact ih (by omega)

theorem bufmgrOpen_some (mem : Mem) (hbuf : bufsize ≤ 2147483632) :
    bufmgrOpen rep rg mem bufsize = some none ∨ ∃ R n ctl mem', Cut rg bufsize R n ∧
      bufmgrOpen rep rg mem bufsize = some (some (ctl, mem')) ∧
      Inv rep rg bufsize R n ⟨ctl, mem', []⟩ (slots rg R n) [] := by
  rw [bufmgrOpen]
  by_cases hnull : rg.base = 0 ∨ bufsize ≤ 0
  · exact .inl (if_pos hnull)
  obtain ⟨B, rfl⟩ := Int.eq_ofNat_of_zero_le (a := bufsize) (by omega)
  rw [if_neg hnull, if_neg (by simp only [intMax, ptrsz]; omega)]
  have hR : ((ptrsz + ((B : Int) + (ptrsz - 1)) / ptrsz * ptrsz).bmod 0x100000000) =
      ((8 + (B + 7) / 8 * 8 : Nat) : Int) := by
    simp only [ptrsz]
    rw [Int.bmod_eq_of_le] <;> push_cast <;> omega
  simp only [hR]
  by_cases hsmall : rg.size < ((8 + (B + 7) / 8 * 8 : Nat) : Int)
  · exact .inl (if_pos hsmall)
  rw [if_neg hsmall]
  generalize hRdef : 8 + (B + 7) / 8 * 8 = R at hsmall
  obtain ⟨S, hS⟩ := Int.eq_ofNat_of_zero_le (a := rg.size) (by omega)
  have hsize := rg.size_int
  have hpos : 0 < S / R := Nat.div_pos (by omega) (by omega)
  have hmul : S / R * R ≤ S := Nat.div_mul_le_self S R
  have hc : Cut rg B R (S / R) :=
    ⟨by omega, by simp only [ptrsz]; omega, hpos, by rw [hS]; exact_mod_cast hmul⟩
  have hrnum : rg.size.tdiv R = (S / R : Nat) := by rw [hS, Int.ofNat_tdiv]
  have hlast : intMul ((S / R : Nat) - 1) R = some (((S / R - 1) * R : Nat) : Int) := by
    have hle : (S / R - 1) * R ≤ S / R * R := Nat.mul_le_mul_right R (by omega)
    have heq : (((S / R : Nat) : Int) - 1) * R = (((S / R - 1) * R : Nat) : Int) := by
      rw [Nat.cast_mul, Nat.cast_sub (by omega)]
      push_cast
      rfl
    rw [intMul, heq, if_pos]
    simp only [intMax] at hsize ⊢
    omega
  obtain ⟨mem', hlink, hload⟩ := @linkBuffers_links rep _ _ _ _ hc mem _ (Nat.le_refl _)
  refine .inr ⟨R, S / R, ⟨rg.base, rg.size, B, R, (S / R : Nat), 0,
    rg.base + ((S / R - 1) * R : Nat), rg.base⟩, mem', hc, ?_, ⟨rfl, rfl, rfl, ?_⟩, rfl, ?_, ?_, rfl⟩
  · simp only [hrnum, hlast, Option.bind_eq_bind, Option.bind_some, Int.toNat_natCast, hlink]
    rfl
  · simp only [slot]
    push_cast
    rfl
  · have hthread := linked_thread hload (S / R) (k := 0) (by omega)
    rw [if_neg (by omega), ← List.range_eq_range'] at hthread
    simpa only [slot, slots, Nat.zero_mul, Nat.add_zero] using hthread
  · rw [List.append_nil]

theorem bufmgrOpen_none (mem : Mem) (hbuf : 2147483632 < bufsize) :
    bufmgrOpen rep rg mem bufsize = none := by
  have hbase := rg.base_pos
  have hsize := rg.size_int
  rw [bufmgrOpen, if_neg (by omega)]
  by_cases hsum : intMax < bufsize + (ptrsz - 1)
  · exact if_pos hsum
  rw [if_neg hsum]
  simp only [intMax, ptrsz] at hsum hsize
  have hR : (((ptrsz : Nat) : Int) + (bufsize + ((ptrsz : Nat) - 1)) / (ptrsz : Nat) * (ptrsz : Nat)).bmod
      0x100000000 = -2147483648 := by
    have hround : ((8 : Nat) : Int) + (bufsize + ((8 : Nat) - 1)) / (8 : Nat) * (8 : Nat) =
        2147483648 := by omega
    simp only [ptrsz, hround]
    decide
  simp only [hR]
  rw [if_neg (by omega)]
  by_cases hmin : rg.size = -2147483648
  · have hrnum : rg.size.tdiv (-2147483648) = 1 := by rw [hmin]; decide
    have hstore : storeNext rep rg mem rg.base 0 = none := by
      rw [storeNext, if_neg]
      simp only [ptrsz, hmin]
      omega
    simp [hrnum, intMul, intMax, linkBuffers, bufferAt, hstore]
  · have hrnum : rg.size.tdiv (-2147483648) = 0 := by
      rw [Int.tdiv_neg, neg_eq_zero]
      rcases Int.lt_or_le rg.size 0 with hneg | hnonneg
      · rw [← neg_neg rg.size, Int.neg_tdiv, Int.tdiv_eq_zero_of_lt (by omega) (by omega), neg_zero]
      · exact Int.tdiv_eq_zero_of_lt hnonneg (by omega)
    simp [hrnum, intMul, intMax]

/-- The managed memory serves every client exactly when a buffer size with its link word is an
int. -/
theorem region_sound_iff (rep : PtrRep) (rg : Region) (bufsize : Int) :
    Sound rep rg bufsize ↔ bufsize ≤ 2147483632 := by
  constructor
  · intro h
    by_contra hbuf
    obtain ⟨r, hopen, _⟩ := h fun _ => 0
    rw [bufmgrOpen_none _ (by omega)] at hopen
    cases hopen
  · intro hbuf mem
    rcases bufmgrOpen_some mem hbuf with hnull | ⟨R, n, ctl, mem', hc, hopen, hinv⟩
    · exact ⟨none, hnull, nofun⟩
    · refine ⟨_, hopen, ?_⟩
      intro ctl' mem'' heq ops
      obtain ⟨rfl, rfl⟩ := Prod.mk.inj (Option.some.inj heq)
      exact hinv.run hc ops

/-- A region of 64 octets, and buffers that are far larger than it. -/
def shortRegion : Region := ⟨4096, 64, by decide, by decide, by decide⟩

/-- The buffers are accepted as too large by their size only, and the handle has none. -/
theorem oversized_buffers_accepted : ¬ Sound littleEndian shortRegion 2147483640 := by
  intro h
  obtain ⟨r, hopen, _⟩ := h fun _ => 0
  have hnone : bufmgrOpen littleEndian shortRegion (fun _ => 0) 2147483640 = none := by decide
  rw [hnone] at hopen
  cases hopen

end OiAmc.BufmgrSound
