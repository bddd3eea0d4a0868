import OiAmc.SetInfoEntries

namespace OiAmc.SetInfoRam

open Function PartialLists SgfpGroup SetInfo SetInfoEntries

def totalLinks (gs : List SgroupInfo) : Nat := (gs.map fun g => g.linkarraysSize.toNat).sum

def Covers (x86 : Bool) (regs : Regs) (a : Nat) : Prop :=
  entryAddr x86 regs ≤ a ∧ a < entryAddr x86 regs + entryCount x86 regs

def Apart (x86 : Bool) (regs regs' : Regs) : Prop := ∀ a, Covers x86 regs a → ¬ Covers x86 regs' a

/-- Every group has an entry with its number of links; the ranges of the entries lie inside of
the link RAM and have nothing in common, and the links are written to them. -/
structure Allocated (x86 : Bool) (gs : List SgroupInfo) (entries links : List Regs) : Prop where
  counts : List.Forall₂ (fun g e => (entryCount x86 e : Int) = g.linkarraysSize) gs entries
  inside : ∀ e ∈ entries, entryAddr x86 e + entryCount x86 e ≤ linkRamSize x86
  apart : entries.Pairwise (Apart x86)
  links : links.map (linkRamAddr x86) =
    entries.flatMap fun e => List.range' (entryAddr x86 e) (entryCount x86 e)

variable {x86 : Bool} {v : UInt8} {regs : Regs} {g : SgroupInfo} {gs : List SgroupInfo}
  {groupMaxnum linkMaxnum : Int} {next next' : UInt32} {ws : List Write}

theorem linkRamSize_bounds : 256 ≤ linkRamSize x86 ∧ linkRamSize x86 ≤ 4096 ∧
    linkRamSize x86 ≤ linkAddrs x86 := by
  cases x86 <;> simp [linkRamSize, linkAddrs]

theorem totalLinks_cons : totalLinks (g :: gs) = g.linkarraysSize.toNat + totalLinks gs := by
  rw [totalLinks, List.map_cons, List.sum_cons]
  rfl

theorem allocated_of_entries {es ls : List Regs} (h : Entries x86 gs next es ls)
    (hsize : ∀ g ∈ gs, 1 ≤ g.linkarraysSize) (hsmall : ∀ g ∈ gs, g.linkarraysSize ≤ 255)
    (hfit : next.toNat + totalLinks gs ≤ linkRamSize x86) :
    Allocated x86 gs es ls ∧ ∀ e ∈ es, ∀ a, Covers x86 e a → next.toNat ≤ a := by
  induction h with
  | nil => exact ⟨⟨.nil, List.forall_mem_nil _, .nil, rfl⟩, List.forall_mem_nil _⟩
  | @cons g gs next e ls es ls' hentry hlinks hrest ih =>
      obtain ⟨_, _, haddr, hcount, _⟩ := hentry
      have hg := hsize g List.mem_cons_self
      have hg' := hsmall g List.mem_cons_self
      obtain ⟨_, hle, hle'⟩ := @linkRamSize_bounds x86
      rw [totalLinks_cons] at hfit
      have hof (n : Nat) (hn : n ≤ 255) (hn' : next.toNat + n ≤ linkRamSize x86) :
          (next + .ofNat n).toNat = next.toNat + n := by
        rw [UInt32.toNat_add, UInt32.toNat_ofNat']
        omega
      have hnext := hof g.linkarraysSize.toNat (by omega) (by omega)
      obtain ⟨hall, hbehind⟩ := ih (fun g hm => hsize g (List.mem_cons_of_mem _ hm))
        (fun g hm => hsmall g (List.mem_cons_of_mem _ hm)) (by omega)
      rw [Nat.mod_eq_of_lt (by omega)] at haddr hcount
      refine ⟨⟨.cons (by omega) hall.counts, ?_, List.pairwise_cons.mpr ⟨?_, hall.apart⟩, ?_⟩, ?_⟩
      · intro e' he
        rcases List.mem_cons.mp he with rfl | he
        · omega
        · exact hall.inside e' he
      · intro e' he a ⟨_, ha⟩ ha'
        have := hbehind e' he a ha'
        omega
      · have hlinks := map_eq_of_forall₂ (hlinks.imp fun j l hl => hl.addr)
        rw [List.map_append, hlinks, hall.links, List.flatMap_cons, haddr, hcount,
          List.range'_eq_map_range]
        congr 1
        refine List.map_congr_left fun j hj => ?_
        have hj := List.mem_range.mp hj
        rw [hof j (by omega) (by omega), Nat.mod_eq_of_lt (by omega)]
      · intro e' he a ha
        rcases List.mem_cons.mp he with rfl | he
        · have := ha.1
          omega
        · have := hbehind e' he a ha
          omega

theorem fits_of_entries {es ls : List Regs} (h : Entries x86 gs next es ls)
    (hsize : ∀ g ∈ gs, 1 ≤ g.linkarraysSize) (hnext : next.toNat ≤ linkRamSize x86)
    (hcounts : List.Forall₂ (fun g e => (entryCount x86 e : Int) = g.linkarraysSize) gs es)
    (hinside : ∀ e ∈ es, entryAddr x86 e + entryCount x86 e ≤ linkRamSize x86)
    (hapart : es.Pairwise (Apart x86)) (hbehind : ∀ e ∈ es, ∀ a, Covers x86 e a → next.toNat ≤ a) :
    (∀ g ∈ gs, g.linkarraysSize ≤ 255) ∧ next.toNat + totalLinks gs ≤ linkRamSize x86 := by
  induction h with
  | nil => exact ⟨List.forall_mem_nil _, hnext⟩
  | @cons g gs next e ls es ls' hentry _ hrest ih =>
      obtain ⟨_, _, haddr, hcount, _⟩ := hentry
      obtain ⟨hc, hcounts⟩ := List.forall₂_cons.mp hcounts
      have hg := hsize g List.mem_cons_self
      have hsmall : g.linkarraysSize ≤ 255 := by omega
      obtain ⟨hge, hle, _⟩ := @linkRamSize_bounds x86
      have hfirst : next.toNat ≤ entryAddr x86 e :=
        hbehind e List.mem_cons_self (entryAddr x86 e) ⟨Nat.le_refl _, by omega⟩
      -- an address of linkRamSize would have been recorded as 0
      have hlt : next.toNat < linkRamSize x86 := by
        by_contra hge'
        have he : next.toNat = linkRamSize x86 := by omega
        rw [he, Nat.mod_self] at haddr
        omega
      rw [Nat.mod_eq_of_lt hlt] at haddr
      have hin := hinside e List.mem_cons_self
      have hnext' : (next + .ofNat g.linkarraysSize.toNat).toNat =
          next.toNat + g.linkarraysSize.toNat := by
        rw [UInt32.toNat_add, UInt32.toNat_ofNat']
        omega
      obtain ⟨he, hapart⟩ := List.pairwise_cons.mp hapart
      obtain ⟨hrest, hfit⟩ := ih (fun g hm => hsize g (List.mem_cons_of_mem _ hm)) (by omega) hcounts
        (fun e he => hinside e (List.mem_cons_of_mem _ he)) hapart fun e' he' a ha => by
          have hle := hbehind e' (List.mem_cons_of_mem _ he') a ha
          have hout : ¬ Covers x86 e a := fun hcov => he e' he' a hcov ha
          have : ¬ a < entryAddr x86 e + entryCount x86 e := fun hlt => hout ⟨by omega, hlt⟩
          omega
      refine ⟨fun g' hm => ?_, ?_⟩
      · rcases List.mem_cons.mp hm with rfl | hm
        · exact hsmall
        · exact hrest g' hm
      · rw [totalLinks_cons]
        omega

/-- The link lists lie apart exactly when no group has more than 255 links and all of them
together are not more than the recorded address can tell apart. -/
theorem ranges_apart_iff {sg : List SgroupInfo} {portGroup setType : Int} (regs : Regs)
    (h : setInfoRule x86 sg portGroup setType = some (0, ws)) :
    Allocated x86 (programmed (groupMax x86 setType) (linkMax x86 setType) sg)
        (strobes 0x02 regs ws) (strobes 0x06 regs ws) ↔
      (∀ g ∈ programmed (groupMax x86 setType) (linkMax x86 setType) sg, g.linkarraysSize ≤ 255) ∧
        totalLinks (programmed (groupMax x86 setType) (linkMax x86 setType) sg) ≤
          linkRamSize x86 := by
  have hentries := setInfoRule_entries regs h
  have hsize : ∀ g ∈ programmed (groupMax x86 setType) (linkMax x86 setType) sg,
      1 ≤ g.linkarraysSize := by
    intro g hg
    exact (of_decide_eq_true (List.mem_filter.mp hg).2).2.1
  constructor
  · intro ⟨hcounts, hinside, hapart, _⟩
    have hfits := fits_of_entries hentries hsize (Nat.zero_le _) hcounts hinside hapart
      fun _ _ a _ => Nat.zero_le a
    rw [UInt32.toNat_zero, Nat.zero_add] at hfits
    exact hfits
  · intro ⟨hsmall, hfit⟩
    refine (allocated_of_entries hentries hsize hsmall ?_).1
    rw [UInt32.toNat_zero, Nat.zero_add]
    exact hfit

theorem ranges_apart_iff_pair : ∃ ws,
    setInfoRule false [plainGroup 7 2, plainGroup 3 1] 0 setOkGroup = some (0, ws) ∧
    Allocated false [plainGroup 7 2, plainGroup 3 1] (strobes 0x02 (fun _ => 0) ws)
      (strobes 0x06 (fun _ => 0) ws) := by
  refine ⟨_, rfl, ?_⟩
  have h := @ranges_apart_iff false _ [plainGroup 7 2, plainGroup 3 1] 0 setOkGroup (fun _ => 0) rfl
  exact h.mpr (by decide)

/-- A group of 256 links is accepted, and recorded with none. -/
theorem full_group_recorded_empty : ¬ ∀ (x86 : Bool) (sg : List SgroupInfo) (portGroup setType : Int)
    (regs : Regs) (ws : List Write), setInfoRule x86 sg portGroup setType = some (0, ws) →
    Allocated x86 (programmed (groupMax x86 setType) (linkMax x86 setType) sg)
      (strobes 0x02 regs ws) (strobes 0x06 regs ws) := by
  intro hall
  have hlinks : ∀ g ∈ [plainGroup 0 256], HasLinks g := by
    intro g hg j hj
    obtain rfl := List.mem_singleton.mp hg
    have hlt : j < 256 := hj
    refine ⟨plainLink 0, ?_⟩
    rw [SgroupInfo.link, plainGroup, Option.bind_some, List.getElem?_replicate, if_pos hlt]
  obtain ⟨ws, hws⟩ := @setInfoRule_defined false _ _ _ setOkGroup (plainLink 0) _ hlinks rfl rfl 0
  have hcounts := (hall false _ 0 setOkGroup (fun _ => 0) ws hws).counts
  have hentries := setInfoRule_entries (fun _ => 0) hws
  rw [show programmed (groupMax false setOkGroup) (linkMax false setOkGroup) [plainGroup 0 256] =
    [plainGroup 0 256] from rfl] at hcounts hentries
  generalize strobes 0x02 (fun _ => 0) ws = entries at hcounts hentries
  generalize strobes 0x06 (fun _ => 0) ws = links at hentries
  cases hentries with
  | cons hentry _ _ =>
      have hsize := (List.forall₂_cons.mp hcounts).1
      rw [hentry.count] at hsize
      exact absurd hsize (by decide)

end OiAmc.SetInfoRam
