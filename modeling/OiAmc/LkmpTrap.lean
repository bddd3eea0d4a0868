import OiAmc.LkmpStat
import OiAmc.PartialMachine

/-! The trap about ports that changed, over the polls of the link map agent. -/

namespace OiAmc.LkmpTrap

open ByteBuffer ByteOrder Lkmp LkmpDevice LkmpStat Pkt PartialMachine
open MessageLayout hiding Octets

def statuses (fpga : Fpga) (i : Nat) : UInt8 := (fpgamifGetPhyStatus fpga i).status

def Reads (fpga : Fpga) (i : Nat) : Prop :=
  fpga.portTypeSel i = true ∧ fpga.sigTypeSel i 0 = true ∧ fpga.sigTypeSel i 1 = true

instance (fpga : Fpga) (i : Nat) : Decidable (Reads fpga i) := inferInstanceAs (Decidable (_ ∧ _ ∧ _))

/-- LOS and LOF as the register says them. -/
def loslof (fpga : Fpga) (i : Nat) : UInt8 :=
  (fpga.sdhPhyInfo i &&& 0x80) >>> 7 ||| (fpga.sdhPhyInfo i &&& 0x40) >>> 5

structure Known where
  polled : Bool
  last : Nat → Option UInt8

def Known.next (known : Known) (fpga : Fpga) : Known where
  polled := true
  last i := if Reads fpga i then some (loslof fpga i) else known.last i

def Known.changed (known : Known) (fpga : Fpga) : List Nat :=
  (List.range portMax).filter fun i => Reads fpga i ∧ ∃ s ∈ known.last i, s ≠ loslof fpga i

structure Names (host : Endian) (glb : PsagentGlb) (ports : List Nat) (ph : Octets) : Prop where
  plen : pkthdrGetPlen host ph = hdrSize + (4 + 10 * ports.length)
  count : be32 ph 20 = .ofNat ports.length
  port : ∀ k (hk : k < ports.length), entries ph (24 + 10 * k) 10 =
    [glb.slot, .ofNat (ports[k] + 1), 0x7f, 0xff, 0xff, 0xff, 0xff, 0xff, 0xff, 0xff]

abbrev State : Type := PsagentGlbData × Known

def start : State := (⟨true, fun _ => 0⟩, ⟨false, fun _ => none⟩)

/-- A trap is sent from the second poll on when a port changed, and names those that did. What is
remembered of a port that could not be read stays. -/
structure Lawful (host : Endian) (glb : PsagentGlb) (s : State) (fpga : Fpga)
    (polled : PsagentGlbData × Option Octets) : Prop where
  trap : polled.2 ≠ none ↔ s.2.polled = true ∧ s.2.changed fpga ≠ []
  names : ∀ ph, polled.2 = some ph → Names host glb (s.2.changed fpga) ph
  kept : ∀ i < portMax, ¬ Reads fpga i → polled.1.phy i = s.1.phy i

variable (host : Endian) (charSigned : Bool) (glb : PsagentGlb)

def step (s : State) (fpga : Fpga) : Option (State × Option Octets) :=
  let polled := psagentCheckPhy host charSigned glb s.1 true (statuses fpga)
  some ((polled.1, s.2.next fpga), polled.2)

def LawfulPoll (s : State) (fpga : Fpga) : Prop :=
  Lawful host glb s fpga (psagentCheckPhy host charSigned glb s.1 true (statuses fpga))

/-- A port that could not be read now, or never before, is found with the status remembered of it:
where it cannot be selected 0 is found, else what the register says. -/
def Keeps (s : State) (fpga : Fpga) : Prop :=
  ∀ i < portMax, ¬ Reads fpga i ∨ s.2.polled = true ∧ s.2.last i = none →
    (if fpga.portTypeSel i = true then loslof fpga i else 0) = s.1.phy i

variable {host charSigned glb} {known : Known} {fpga : Fpga} {s : State} {ports : List Nat} {ph : Octets}

theorem statuses_eq (fpga : Fpga) {i : Nat} (hi : i < portMax) :
    statuses fpga i = if fpga.portTypeSel i = true then loslof fpga i else 0 := by
  have hport : (UInt8.ofNat i).toNat = i := by
    have hmax : portMax = 4 := rfl
    rw [UInt8.toNat_ofNat']
    omega
  rw [statuses, fpgamifGetPhyStatus, fpgamifGetOnePortPhyStatus]
  simp only [hport]
  cases fpga.portTypeSel i with
  | false => rfl
  | true =>
      rw [if_neg (by decide), if_pos rfl]
      split_ifs <;> rfl

theorem statuses_of_reads {i : Nat} (hi : i < portMax) (h : Reads fpga i) :
    statuses fpga i = loslof fpga i := by
  rw [statuses_eq fpga hi, if_pos h.1]

section Message

def row (glb : PsagentGlb) (i : Nat) : List UInt8 :=
  [glb.slot, .ofNat (i + 1), 0x7f, 0xff, 0xff, 0xff, 0xff, 0xff, 0xff, 0xff]

theorem names_message {id device : UInt16} (hports : ports.length ≤ portMax) :
    Names host glb ports (message host id (hdrSize + 4 + 10 * ports.length) device
      (be 4 ports.length ++ ports.flatMap (row glb))) := by
  have hmax : portMax = 4 := rfl
  have hhdr : hdrSize = 20 := rfl
  have hrows : ∀ r ∈ ports.map (row glb), r.length = 10 := by
    intro r hr
    obtain ⟨i, -, rfl⟩ := List.mem_map.mp hr
    rfl
  have hlen : (ports.flatMap (row glb)).length = 10 * ports.length := by
    have h := StreamWindows.length_flatten hrows
    rwa [List.length_map] at h
  have hbe : (be 4 ports.length).length = 4 := length_be 4 _
  have hall : (be 4 ports.length ++ ports.flatMap (row glb)).length = 4 + 10 * ports.length := by
    rw [List.length_append, hlen, hbe]
  constructor
  · rw [plen_message (by omega) (by omega)]
    omega
  · apply be32_of_entries
    have h := @entries_message host id device (hdrSize + 4 + 10 * ports.length)
      (be 4 ports.length ++ ports.flatMap (row glb)) 0 4 (by omega)
    have htoNat : (UInt32.ofNat ports.length).toNat = ports.length := by
      rw [UInt32.toNat_ofNat']
      omega
    rw [htoNat]
    rwa [List.drop_zero, List.take_append_of_le_length (by omega), List.take_of_length_le (by omega)] at h
  · intro k hk
    have h := @entries_message host id device (hdrSize + 4 + 10 * ports.length)
      (be 4 ports.length ++ ports.flatMap (row glb)) (4 + 10 * k) 10 (by omega)
    have hdrop : (be 4 ports.length ++ ports.flatMap (row glb)).drop (4 + 10 * k) =
        (ports.flatMap (row glb)).drop (10 * k) := by
      rw [List.drop_append, hbe, List.drop_eq_nil_of_le (by omega), Nat.add_sub_cancel_left, List.nil_append]
    have hwindow := StreamWindows.window_flatten hrows (i := k) (by rwa [List.length_map])
    rw [List.getElem_map] at hwindow
    rw [hdrop] at h
    rw [← Nat.add_assoc] at h
    exact h.trans hwindow

theorem names_unique {ports' : List Nat} (hports : ∀ i ∈ ports, i < portMax) (hports' : ∀ i ∈ ports', i < portMax)
    (h : Names host glb ports ph) (h' : Names host glb ports' ph) : ports = ports' := by
  have hmax : portMax = 4 := rfl
  have hlen : ports.length = ports'.length := by
    have hplen := h.plen.symm.trans h'.plen
    omega
  apply List.ext_getElem hlen
  intro k hk hk'
  have hrow := (h.port k hk).symm.trans (h'.port k hk')
  simp only [List.cons.injEq, and_true, true_and] at hrow
  have hnum := congrArg UInt8.toNat hrow
  rw [UInt8.toNat_ofNat', UInt8.toNat_ofNat'] at hnum
  have hi := hports _ (List.getElem_mem hk)
  have hi' := hports' _ (List.getElem_mem hk')
  omega

end Message

section Steps

def differ (data : PsagentGlbData) (fpga : Fpga) : List Nat :=
  (List.range portMax).filter fun i => decide (statuses fpga i ≠ data.phy i)

theorem mem_differ {data : PsagentGlbData} {i : Nat} :
    i ∈ differ data fpga ↔ i < portMax ∧ statuses fpga i ≠ data.phy i := by
  rw [differ, List.mem_filter, List.mem_range, decide_eq_true_iff]

theorem mem_changed {i : Nat} : i ∈ known.changed fpga ↔
    i < portMax ∧ Reads fpga i ∧ ∃ s ∈ known.last i, s ≠ loslof fpga i := by
  rw [Known.changed, List.mem_filter, List.mem_range, decide_eq_true_iff]

structure Remembers (s : State) : Prop where
  first : s.1.first = !s.2.polled
  unread : s.2.polled = false → ∀ i, s.2.last i = none
  last : ∀ i < portMax, ∀ t, s.2.last i = some t → s.1.phy i = t

theorem check_cases (host : Endian) (charSigned : Bool) (glb : PsagentGlb) (fpga : Fpga) (data : PsagentGlbData) :
    (data.first = true ∧
      psagentCheckPhy host charSigned glb data true (statuses fpga) = (⟨false, statuses fpga⟩, none)) ∨
    (data.first = false ∧ differ data fpga = [] ∧
      psagentCheckPhy host charSigned glb data true (statuses fpga) = (data, none)) ∨
    data.first = false ∧ differ data fpga ≠ [] ∧ ∃ ph,
      psagentCheckPhy host charSigned glb data true (statuses fpga) = (⟨false, statuses fpga⟩, some ph) ∧
        Names host glb (differ data fpga) ph := by
  have hlen : (differ data fpga).length ≤ portMax := (List.length_filter_le _ _).trans_eq List.length_range
  have hnames := @names_message host glb _ pspMsgTrapLinkChange (ofChar charSigned (deviceOf glb).toUInt8) hlen
  rw [psagentCheckPhy, if_neg (by decide)]
  cases hfirst : data.first with
  | true => exact Or.inl ⟨rfl, if_pos rfl⟩
  | false =>
      rw [if_neg (by decide)]
      by_cases hdiffer : differ data fpga = []
      · exact Or.inr (Or.inl ⟨rfl, hdiffer, if_pos hdiffer⟩)
      · exact Or.inr (Or.inr ⟨rfl, hdiffer, _, if_neg hdiffer, hnames⟩)

theorem phy_check {i : Nat} (hi : i < portMax) :
    (psagentCheckPhy host charSigned glb s.1 true (statuses fpga)).1.phy i = statuses fpga i := by
  rcases check_cases host charSigned glb fpga s.1 with ⟨-, h⟩ | ⟨-, hdiffer, h⟩ | ⟨-, -, ph, h, -⟩
  · rw [h]
  · rw [h]
    by_contra hne
    have hmem : i ∈ differ s.1 fpga := mem_differ.mpr ⟨hi, Ne.symm hne⟩
    rw [hdiffer] at hmem
    cases hmem
  · rw [h]

theorem first_check : (psagentCheckPhy host charSigned glb s.1 true (statuses fpga)).1.first = false := by
  rcases check_cases host charSigned glb fpga s.1 with ⟨-, h⟩ | ⟨hfirst, -, h⟩ | ⟨-, -, ph, h, -⟩
  · rw [h]
  · rw [h]
    exact hfirst
  · rw [h]

theorem Remembers.polled_iff (hs : Remembers s) : s.2.polled = true ↔ s.1.first = false := by
  rw [hs.first]
  cases s.2.polled <;> simp

/-- Where nothing is found but what is remembered or read, the ports that differ are those that
changed. -/
theorem differ_eq (hs : Remembers s) (hpolled : s.2.polled = true) (h : Keeps s fpga) :
    differ s.1 fpga = s.2.changed fpga := by
  apply List.filter_congr
  intro i hi
  have hi := List.mem_range.mp hi
  apply decide_eq_decide.mpr
  by_cases hport : ¬ Reads fpga i ∨ s.2.last i = none
  · have hkeep := h i hi (hport.imp_right fun hlast => ⟨hpolled, hlast⟩)
    rw [← statuses_eq fpga hi] at hkeep
    apply iff_of_false (not_not.mpr hkeep)
    rintro ⟨hreads, t, ht, -⟩
    rcases hport with hport | hport
    · exact hport hreads
    · rw [hport] at ht
      cases ht
  · obtain ⟨hreads, hlast⟩ := not_or.mp hport
    have hreads := not_not.mp hreads
    obtain ⟨t, ht⟩ := Option.ne_none_iff_exists'.mp hlast
    rw [statuses_of_reads hi hreads, hs.last i hi t ht, ht]
    constructor
    · exact fun hne => ⟨hreads, t, rfl, hne.symm⟩
    · rintro ⟨-, t', ht', hne⟩
      rw [← Option.some.inj ht'] at hne
      exact hne.symm

theorem lawful_of_keeps (hs : Remembers s) (h : Keeps s fpga) : LawfulPoll host charSigned glb s fpga := by
  have hkept : ∀ i < portMax, ¬ Reads fpga i →
      (psagentCheckPhy host charSigned glb s.1 true (statuses fpga)).1.phy i = s.1.phy i := by
    intro i hi hreads
    rw [phy_check hi, statuses_eq fpga hi]
    exact h i hi (Or.inl hreads)
  refine ⟨?_, fun ph hph => ?_, hkept⟩
  · rcases check_cases host charSigned glb fpga s.1 with ⟨hfirst, hcheck⟩ | ⟨hfirst, hdiffer, hcheck⟩ |
      ⟨hfirst, hdiffer, ph, hcheck, -⟩
    · have hpolled : ¬ s.2.polled = true := fun h => by simp [hs.polled_iff.mp h] at hfirst
      rw [hcheck]
      exact iff_of_false (fun h => h rfl) fun h => hpolled h.1
    · rw [hcheck, ← differ_eq hs (hs.polled_iff.mpr hfirst) h]
      exact iff_of_false (fun h => h rfl) fun h => h.2 hdiffer
    · have hpolled := hs.polled_iff.mpr hfirst
      rw [hcheck, ← differ_eq hs hpolled h]
      exact iff_of_true (Option.some_ne_none ph) ⟨hpolled, hdiffer⟩
  · rcases check_cases host charSigned glb fpga s.1 with ⟨-, hcheck⟩ | ⟨-, -, hcheck⟩ |
      ⟨hfirst, -, ph', hcheck, hnames⟩
    · rw [hcheck] at hph
      cases hph
    · rw [hcheck] at hph
      cases hph
    · rw [hcheck] at hph
      rw [← differ_eq hs (hs.polled_iff.mpr hfirst) h, ← Option.some.inj hph]
      exact hnames

theorem differ_of_lawful (hs : Remembers s) (hpolled : s.2.polled = true)
    (h : LawfulPoll host charSigned glb s fpga) : differ s.1 fpga = s.2.changed fpga := by
  have hfirst' := hs.polled_iff.mp hpolled
  have htrap := h.trap
  rcases check_cases host charSigned glb fpga s.1 with ⟨hfirst, -⟩ | ⟨-, hdiffer, hcheck⟩ |
    ⟨-, -, ph, hcheck, hnames⟩
  · rw [hfirst'] at hfirst
    cases hfirst
  · rw [hcheck] at htrap
    rw [hdiffer]
    by_contra hne
    exact htrap.mpr ⟨hpolled, Ne.symm hne⟩ rfl
  · have hnames' := h.names ph (congrArg Prod.snd hcheck)
    exact names_unique (fun i hi => (mem_differ.mp hi).1) (fun i hi => (mem_changed.mp hi).1) hnames hnames'

theorem keeps_of_lawful (hs : Remembers s) (h : LawfulPoll host charSigned glb s fpga) : Keeps s fpga := by
  intro i hi hport
  rw [← statuses_eq fpga hi]
  by_cases hreads : Reads fpga i
  · obtain ⟨hpolled, hlast⟩ := hport.resolve_left (not_not.mpr hreads)
    by_contra hne
    have hmem := mem_differ.mpr ⟨hi, hne⟩
    rw [differ_of_lawful hs hpolled h] at hmem
    obtain ⟨-, -, t, ht, -⟩ := mem_changed.mp hmem
    rw [hlast] at ht
    cases ht
  · rw [← @phy_check host charSigned glb fpga s i hi]
    exact h.kept i hi hreads

theorem remembers_step (hs : Remembers s) (h : Keeps s fpga) {p : State × Option Octets}
    (hp : step host charSigned glb s fpga = some p) : Remembers p.1 := by
  rw [← Option.some.inj hp]
  refine ⟨first_check, fun hpolled => ?_, fun i hi t ht => ?_⟩
  · cases hpolled
  · rw [phy_check hi]
    by_cases hreads : Reads fpga i
    · rw [statuses_of_reads hi hreads]
      exact Option.some.inj ((if_pos hreads).symm.trans ht)
    · rw [statuses_eq fpga hi, h i hi (Or.inl hreads)]
      exact hs.last i hi t ((if_neg hreads).symm.trans ht)

end Steps

/-- The polls follow the law as long as every port that is not read, or was not before, is found as
it is remembered. -/
theorem trap_law_iff (host : Endian) (charSigned : Bool) (glb : PsagentGlb) (polls : List Fpga) :
    Guarded (step host charSigned glb) (LawfulPoll host charSigned glb) start polls ↔
      Guarded (step host charSigned glb) Keeps start polls := by
  have hstart : Remembers start := ⟨rfl, fun _ _ => rfl, fun i _ t ht => by cases ht⟩
  constructor
  · apply guarded_imp (I := Remembers) ?_ hstart
    intro s fpga hs h
    have hkeeps := keeps_of_lawful hs h
    exact ⟨hkeeps, fun p hp => remembers_step hs hkeeps hp⟩
  · apply guarded_imp (I := Remembers) ?_ hstart
    intro s fpga hs h
    exact ⟨lawful_of_keeps hs h, fun p hp => remembers_step hs h hp⟩

def register (selects : Bool) (info : UInt8) : Fpga where
  portTypeSel _ := selects
  sdhPhyInfo _ := info
  sigTypeSel _ _ := true
  cntChScan _ _ := 0
  cntFr _ _ := 0
  portSel _ := true
  mifE1Num _ _ := true
  e1Valid _ _ := 0
  chanSel _ := true
  chan _ := ⟨0, 0, 0, 0⟩

/-- Ports that had LOS and cannot be read any more are reported. -/
theorem unread_reported : ¬ ∀ host charSigned glb polls,
    Guarded (step host charSigned glb) (LawfulPoll host charSigned glb) start polls := by
  intro h
  have hpoll := (h .big false ⟨1, .amc, 1, 1, 0, 0, 0⟩ [register true 0x80, register false 0]).2 _ rfl
  have hsent := (hpoll.1.trap.mp (by decide)).2
  exact hsent rfl

end OiAmc.LkmpTrap
