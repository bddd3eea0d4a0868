import OiAmc.Cconfig

/-! The report of the GFP groups of a port, as read from the result file. -/

namespace OiAmc.SdhGfp

open Cconfig Numerals

inductive FpgaType
  | hp | lp | other

/-- S and K are the types of a speed and of a channel. -/
structure Group (S K : Type) where
  speed : S
  channelsNum : Nat
  channels : List K

structure Info (S K : Type) where
  type : Option FpgaType
  groupsNum : Nat
  groups : List (Group S K)

/-- How many groups and channels there is room for, and what the fields hold of an int. -/
structure Shape (S K : Type) where
  groups : Nat
  channels : Nat
  speed : Int → S
  channel : Int → K

variable {S K : Type}

def Shape.blankChannels (shape : Shape S K) : List K := List.replicate shape.channels (shape.channel 0)

def Shape.blank (shape : Shape S K) : Info S K :=
  ⟨none, 0, List.replicate shape.groups ⟨shape.speed 0, 0, shape.blankChannels⟩⟩

def sectionName : Text := "Sgfp Group Info".toList

def linkId : Text := "link".toList

structure Fields where
  f0 : Int
  f1 : Int
  f2 : Int
  f3 : Int

/-- `sscanf(idval, "%d,%d,%d,%d", ...)` over four zeros -/
def scanFields (s : Text) : Fields :=
  match scanInt s with
  | none => ⟨0, 0, 0, 0⟩
  | some (f0, s) =>
      match (scanChar ',' s).bind scanInt with
      | none => ⟨f0, 0, 0, 0⟩
      | some (f1, s) =>
          match (scanChar ',' s).bind scanInt with
          | none => ⟨f0, f1, 0, 0⟩
          | some (f2, s) =>
              match (scanChar ',' s).bind scanInt with
              | none => ⟨f0, f1, f2, 0⟩
              | some (f3, _) => ⟨f0, f1, f2, f3⟩

/-- A write into the array of the groups. Outside of it there is no outcome. -/
def putGroup (gs : List (Group S K)) (i : Int) (f : Group S K → Option (Group S K)) : Option (List (Group S K)) :=
  if 0 ≤ i then (gs[i.toNat]?).bind fun g => (f g).map fun g => gs.set i.toNat g else none

def putChannel (c : Nat) (v : K) (g : Group S K) : Option (Group S K) :=
  if c < g.channels.length then some { g with channels := g.channels.set c v } else none

structure State (S K : Type) where
  groups : List (Group S K)
  groupid : Nat
  channelsNum : Nat

/-- The uint8_t of an int. -/
def octet (x : Int) : Nat := (x % 256).toNat

/-- The lines of a section, from j on. A value too long for idval and an int past its range have no outcome. -/
def linkLoop (shape : Shape S K) (h : CConfig) (port : UInt8) (i : Nat) :
    Nat → Nat → State S K → Option (State S K)
  | 0, _, s => some s
  | n + 1, j, s =>
      match cfgGetValue h sectionName (some linkId) (j + 1) (i + 1) with
      | none => some s
      | some idval =>
          if 64 ≤ idval.length then none
          else
            let tmpval := scanFields idval
            if j = 0 ∧ tmpval.f0 ≠ port.toNat - 1 then some s
            else
              let s := if j = 0 then { s with groupid := octet (s.groupid + 1), channelsNum := 0 } else s
              (putGroup s.groups (s.groupid - 1) fun g => some { g with speed := shape.speed tmpval.f3 }).bind fun gs =>
              if tmpval.f2 = 2 ^ 31 - 1 then none
              else
                (putGroup gs (s.groupid - 1) (putChannel s.channelsNum (shape.channel (tmpval.f2 + 1)))).bind fun gs =>
                linkLoop shape h port i n (j + 1)
                  { s with groups := gs, channelsNum := octet (s.channelsNum + 1) }

def sectionLoop (shape : Shape S K) (h : CConfig) (port : UInt8) : Nat → Nat → State S K → Option (State S K)
  | 0, _, s => some s
  | n + 1, i, s =>
      let idnum := octet (cfgGetCount h sectionName (some linkId) (i + 1))
      (putGroup s.groups i fun g =>
        some { g with speed := shape.speed 0, channels := List.replicate g.channels.length (shape.channel 0) }).bind fun gs =>
      (linkLoop shape h port i idnum 0 { s with groups := gs }).bind fun s =>
      (putGroup s.groups (s.groupid - 1) fun g => some { g with channelsNum := s.channelsNum }).bind fun gs =>
      sectionLoop shape h port n (i + 1) { s with groups := gs }

def sdhlibGetGfpInfo (shape : Shape S K) (mapped : Bool) (type : FpgaType) (port : UInt8) (file : Option Text) :
    Option (Int × Info S K) :=
  if !mapped then some (-1, shape.blank)
  else
    let info := { shape.blank with type := some type }
    let wrongPort : Bool := match type with
      | .hp => decide (port > 4)
      | .lp => decide (port > 16)
      | .other => true
    if wrongPort then some (-1, info)
    else match file with
      | none => some (0, { info with groupsNum := 0 })
      | some text =>
          match cfgInitialize text with
          | none => some (-1, info)
          | some h =>
              let secnum := octet (cfgGetCount h sectionName none 0)
              (sectionLoop shape h port secnum 0 ⟨info.groups, 0, 0⟩).map fun s =>
                (0, { info with groups := s.groups, groupsNum := s.groupid })

variable {shape : Shape S K} {port : UInt8} {gs : List (Group S K)} {g : Group S K} {s s' : State S K}
  {l vs : List Text} {v : Text} {k i : Nat}

theorem octet_of_lt {n : Nat} (h : n < 256) : octet n = n := by
  rw [octet]
  omega

theorem putGroup_of_lt (f : Group S K → Option (Group S K)) (hk : k < gs.length) :
    putGroup gs k f = (f gs[k]).map fun g => gs.set k g := by
  rw [putGroup, if_pos (Int.natCast_nonneg k), Int.toNat_natCast, List.getElem?_eq_getElem hk, Option.bind_some]

theorem putGroup_of_ge (f : Group S K → Option (Group S K)) (hk : gs.length ≤ k) : putGroup gs k f = none := by
  rw [putGroup, if_pos (Int.natCast_nonneg k), Int.toNat_natCast, List.getElem?_eq_none hk]
  rfl

def lineLoop (shape : Shape S K) (port : UInt8) : Bool → List Text → State S K → Option (State S K)
  | _, [], s => some s
  | first, v :: vs, s =>
      if 64 ≤ v.length then none
      else if first ∧ (scanFields v).f0 ≠ port.toNat - 1 then some s
      else
        let s := if first then { s with groupid := octet (s.groupid + 1), channelsNum := 0 } else s
        (putGroup s.groups (s.groupid - 1) fun g => some { g with speed := shape.speed (scanFields v).f3 }).bind fun gs =>
        if (scanFields v).f2 = 2 ^ 31 - 1 then none
        else
          (putGroup gs (s.groupid - 1) (putChannel s.channelsNum (shape.channel ((scanFields v).f2 + 1)))).bind fun gs =>
          lineLoop shape port false vs { s with groups := gs, channelsNum := octet (s.channelsNum + 1) }

theorem linkLoop_eq {h : CConfig} {L : List Text}
    (hL : ∀ j, cfgGetValue h sectionName (some linkId) (j + 1) (i + 1) = L[j]?) (n j : Nat) (s : State S K) :
    linkLoop shape h port i n j s = lineLoop shape port (decide (j = 0)) ((L.drop j).take n) s := by
  induction n generalizing j s with
  | zero => rw [List.take_zero, linkLoop, lineLoop]
  | succ n ih =>
      rw [linkLoop, hL]
      cases hj : L[j]? with
      | none =>
          rw [List.drop_eq_nil_of_le (List.getElem?_eq_none_iff.mp hj), List.take_nil, lineLoop]
      | some v =>
          obtain ⟨hlt, rfl⟩ := List.getElem?_eq_some_iff.mp hj
          have hnext : ∀ s : State S K, linkLoop shape h port i n (j + 1) s =
              lineLoop shape port false ((L.drop (j + 1)).take n) s := fun s => ih (j + 1) s
          rw [List.drop_eq_getElem_cons hlt, List.take_succ_cons, lineLoop]
          simp only [hnext, decide_eq_true_eq]

/-- A value that goes into idval, and a channel that is an int. -/
def Fits (v : Text) : Prop := v.length < 64 ∧ (scanFields v).f2 ≠ 2 ^ 31 - 1

instance (v : Text) : Decidable (Fits v) := inferInstanceAs (Decidable (_ ∧ _))

def fill (shape : Shape S K) (g : Group S K) (c : Nat) : List Text → Group S K
  | [] => g
  | v :: vs => fill shape { g with
      speed := shape.speed (scanFields v).f3
      channels := g.channels.set c (shape.channel ((scanFields v).f2 + 1)) } (c + 1) vs

theorem lineLoop_cons (hk : s.groupid = k + 1) (hg : s.groups[k]? = some g) :
    lineLoop shape port false (v :: vs) s = if Fits v ∧ s.channelsNum < g.channels.length then
      lineLoop shape port false vs ⟨s.groups.set k { g with
        speed := shape.speed (scanFields v).f3
        channels := g.channels.set s.channelsNum (shape.channel ((scanFields v).f2 + 1)) }, k + 1,
        octet (s.channelsNum + 1)⟩ else none := by
  obtain ⟨hlt, rfl⟩ := List.getElem?_eq_some_iff.mp hg
  have hindex : ((s.groupid : Int) - 1) = (k : Int) := by
    rw [hk]
    omega
  rw [lineLoop]
  by_cases hlong : 64 ≤ v.length
  · rw [if_pos hlong, if_neg fun hf => Nat.not_le_of_lt hf.1.1 hlong]
  · rw [if_neg hlong]
    simp only [Bool.false_eq_true, false_and, if_false, hindex]
    rw [putGroup_of_lt _ hlt, Option.map_some, Option.bind_some]
    by_cases hmax : (scanFields v).f2 = 2 ^ 31 - 1
    · rw [if_pos hmax, if_neg fun hf => hf.1.2 hmax]
    · rw [if_neg hmax, putGroup_of_lt _ (by rwa [List.length_set]), List.getElem_set_self, putChannel]
      by_cases hroom : s.channelsNum < s.groups[k].channels.length
      · rw [if_pos hroom, if_pos ⟨⟨Nat.lt_of_not_le hlong, hmax⟩, hroom⟩, Option.map_some, Option.bind_some, List.set_set,
          hk]
      · rw [if_neg hroom, if_neg fun hf => hroom hf.2]
        rfl

theorem lineLoop_none (hk : s.groupid = k + 1) (hg : s.groups[k]? = some g) (hnum : s.channelsNum ≤ g.channels.length)
    (hlen : s.channelsNum + vs.length < 256)
    (hno : ¬ (s.channelsNum + vs.length ≤ g.channels.length ∧ ∀ v ∈ vs, Fits v)) :
    lineLoop shape port false vs s = none := by
  induction vs generalizing s g with
  | nil => exact absurd ⟨hnum, nofun⟩ hno
  | cons v vs ih =>
      rw [List.length_cons] at hlen hno
      rw [lineLoop_cons hk hg]
      split
      · rename_i hv
        obtain ⟨hlt, -⟩ := List.getElem?_eq_some_iff.mp hg
        have hoctet : octet (s.channelsNum + 1 : Nat) = s.channelsNum + 1 := octet_of_lt (by omega)
        apply ih (g := { g with
          speed := shape.speed (scanFields v).f3
          channels := g.channels.set s.channelsNum (shape.channel ((scanFields v).f2 + 1)) })
        · rfl
        · rw [List.getElem?_set_self hlt]
        · change octet (s.channelsNum + 1 : Nat) ≤ (g.channels.set _ _).length
          rw [hoctet, List.length_set]
          exact hv.2
        · change octet (s.channelsNum + 1 : Nat) + vs.length < 256
          omega
        · intro hrest
          obtain ⟨hroom, hfits⟩ := hrest
          change octet (s.channelsNum + 1 : Nat) + vs.length ≤ (g.channels.set _ _).length at hroom
          rw [hoctet, List.length_set] at hroom
          exact hno ⟨by omega, List.forall_mem_cons.mpr ⟨hv.1, hfits⟩⟩
      · rfl

theorem lineLoop_some (hk : s.groupid = k + 1) (hg : s.groups[k]? = some g)
    (hlen : s.channelsNum + vs.length < 256) (hroom : s.channelsNum + vs.length ≤ g.channels.length)
    (hfits : ∀ v ∈ vs, Fits v) : lineLoop shape port false vs s =
      some ⟨s.groups.set k (fill shape g s.channelsNum vs), k + 1, s.channelsNum + vs.length⟩ := by
  induction vs generalizing s g with
  | nil =>
      obtain ⟨hlt, rfl⟩ := List.getElem?_eq_some_iff.mp hg
      rw [lineLoop, fill, List.set_getElem_self, ← hk]
      rfl
  | cons v vs ih =>
      obtain ⟨hv, hfits⟩ := List.forall_mem_cons.mp hfits
      rw [List.length_cons] at hlen hroom
      obtain ⟨hlt, -⟩ := List.getElem?_eq_some_iff.mp hg
      have hoctet : octet (s.channelsNum + 1 : Nat) = s.channelsNum + 1 := octet_of_lt (by omega)
      rw [lineLoop_cons hk hg, if_pos ⟨hv, by omega⟩]
      have hrest := ih (s := ⟨s.groups.set k { g with
          speed := shape.speed (scanFields v).f3
          channels := g.channels.set s.channelsNum (shape.channel ((scanFields v).f2 + 1)) }, k + 1,
          octet (s.channelsNum + 1)⟩) rfl (List.getElem?_set_self hlt) (by
            change octet (s.channelsNum + 1 : Nat) + vs.length < 256
            omega) (by
            change octet (s.channelsNum + 1 : Nat) + vs.length ≤ (g.channels.set _ _).length
            rw [List.length_set]
            omega) hfits
      rw [hrest, List.set_set]
      change some (⟨s.groups.set k (fill shape _ (octet (s.channelsNum + 1 : Nat)) vs), k + 1,
        octet (s.channelsNum + 1 : Nat) + vs.length⟩ : State S K) = _
      rw [hoctet, Nat.add_right_comm, Nat.add_assoc]
      rfl

theorem fill_length (shape : Shape S K) (g : Group S K) (c : Nat) (vs : List Text) :
    (fill shape g c vs).channels.length = g.channels.length := by
  induction vs generalizing g c with
  | nil => rfl
  | cons v vs ih => exact (ih _ _).trans List.length_set

theorem fill_speed (shape : Shape S K) (g : Group S K) (c : Nat) (v : Text) (vs : List Text) :
    (fill shape g c (v :: vs)).speed = shape.speed (scanFields ((v :: vs).getLast (List.cons_ne_nil v vs))).f3 := by
  induction vs generalizing v g c with
  | nil => rfl
  | cons w vs ih => exact ih _ _ w

theorem fill_channels {c : Nat} (h : c + vs.length ≤ g.channels.length) :
    (fill shape g c vs).channels.take (c + vs.length) =
      g.channels.take c ++ vs.map fun v => shape.channel ((scanFields v).f2 + 1) := by
  induction vs generalizing g c with
  | nil => exact (List.append_nil _).symm
  | cons v vs ih =>
      rw [List.length_cons] at h
      have hrest := @ih { g with
        speed := shape.speed (scanFields v).f3
        channels := g.channels.set c (shape.channel ((scanFields v).f2 + 1)) } (c + 1) (by
          change c + 1 + vs.length ≤ (g.channels.set _ _).length
          rw [List.length_set]
          omega)
      have hc : c < g.channels.length := by omega
      rw [fill, List.length_cons, show c + (vs.length + 1) = c + 1 + vs.length by omega, hrest, List.map_cons]
      dsimp only
      rw [List.take_succ_eq_append_getElem (by rwa [List.length_set]), List.getElem_set_self,
        List.take_set_of_le (Nat.le_refl c), List.append_assoc]
      rfl

def Matches (port : UInt8) (l : List Text) : Prop := ∃ v ∈ l.head?, (scanFields v).f0 = port.toNat - 1

instance (port : UInt8) : ∀ l, Decidable (Matches port l)
  | [] => isFalse fun ⟨_, hv, _⟩ => nomatch hv
  | v :: vs => decidable_of_iff ((scanFields v).f0 = port.toNat - 1) <| by
      simp only [Matches, List.head?_cons, Option.mem_some_iff, exists_eq_left']

def reported (shape : Shape S K) (port : UInt8) : List Text → Option (S × Nat × List K)
  | [] => none
  | v :: vs => if (scanFields v).f0 = port.toNat - 1 then
      some (shape.speed (scanFields ((v :: vs).getLast (List.cons_ne_nil v vs))).f3, vs.length + 1,
        (v :: vs).map fun v => shape.channel ((scanFields v).f2 + 1))
    else none

def Group.view (g : Group S K) : S × Nat × List K := (g.speed, g.channelsNum, g.channels.take g.channelsNum)

theorem reported_isSome : (reported shape port l).isSome ↔ Matches port l := by
  cases l with
  | nil => exact iff_of_false Bool.false_ne_true fun ⟨_, hv, _⟩ => nomatch hv
  | cons v vs =>
      rw [reported, Matches]
      simp only [List.head?_cons, Option.mem_some_iff, exists_eq_left']
      split
      · rename_i hv
        exact iff_of_true rfl hv
      · rename_i hv
        exact iff_of_false Bool.false_ne_true hv

def sectionStep (shape : Shape S K) (port : UInt8) (i : Nat) (l : List Text) (s : State S K) : Option (State S K) :=
  (putGroup s.groups i fun g =>
    some { g with speed := shape.speed 0, channels := List.replicate g.channels.length (shape.channel 0) }).bind fun gs =>
  (lineLoop shape port true l { s with groups := gs }).bind fun s =>
  (putGroup s.groups (s.groupid - 1) fun g => some { g with channelsNum := s.channelsNum }).map fun gs =>
  { s with groups := gs }

structure Inv (shape : Shape S K) (i : Nat) (s : State S K) (done : List (S × Nat × List K)) : Prop where
  groups : s.groups.length = shape.groups
  channels : ∀ g ∈ s.groups, g.channels.length = shape.channels
  groupid : s.groupid ≤ i
  count : s.groupid = done.length
  views : (s.groups.take s.groupid).map Group.view = done
  last : ∀ k, s.groupid = k + 1 → (s.groups[k]?).map Group.channelsNum = some s.channelsNum

def Safe (shape : Shape S K) (port : UInt8) (l : List Text) : Prop :=
  (∀ v ∈ l.head?, v.length < 64) ∧ (Matches port l → l.length ≤ shape.channels ∧ ∀ v ∈ l, Fits v)

theorem clear_group {done : List (S × Nat × List K)} (hinv : Inv shape i s done) (hi : i < shape.groups) : ∃ gs,
    (putGroup s.groups i fun g => some { g with
      speed := shape.speed 0, channels := List.replicate g.channels.length (shape.channel 0) }) = some gs ∧
    Inv shape i { s with groups := gs } done := by
  have hlt : i < s.groups.length := hinv.groups ▸ hi
  refine ⟨_, putGroup_of_lt _ hlt, ?_⟩
  have hgroupid := hinv.groupid
  constructor
  · exact List.length_set.trans hinv.groups
  · intro g hg
    rcases List.mem_or_eq_of_mem_set hg with hg | rfl
    · exact hinv.channels g hg
    · exact List.length_replicate.trans (hinv.channels _ (List.getElem_mem hlt))
  · exact hinv.groupid
  · exact hinv.count
  · rw [← hinv.views]
    exact congrArg _ (List.take_set_of_le hgroupid)
  · intro k hk
    have hk' : s.groupid = k + 1 := hk
    rw [← hinv.last k hk, List.getElem?_set_ne (by omega)]

theorem lineLoop_long (hv : 64 ≤ v.length) : lineLoop shape port true (v :: vs) s = none := by
  rw [lineLoop, if_pos hv]

theorem lineLoop_other (hv : ¬ 64 ≤ v.length) (hport : (scanFields v).f0 ≠ port.toNat - 1) :
    lineLoop shape port true (v :: vs) s = some s := by
  rw [lineLoop, if_neg hv, if_pos ⟨rfl, hport⟩]

theorem lineLoop_open (hv : ¬ 64 ≤ v.length) (hport : (scanFields v).f0 = port.toNat - 1) :
    lineLoop shape port true (v :: vs) s =
      lineLoop shape port false (v :: vs) { s with groupid := octet (s.groupid + 1), channelsNum := 0 } := by
  simp only [lineLoop, if_neg hv, hport, ne_eq, not_true_eq_false, and_false, if_false, Bool.false_eq_true, if_true]

theorem sectionEnd_same {done : List (S × Nat × List K)} (hinv : Inv shape i s done) (hdone : done ≠ []) :
    (putGroup s.groups (s.groupid - 1) fun g => some { g with channelsNum := s.channelsNum }) = some s.groups := by
  have hpos : 0 < s.groupid := by
    rw [hinv.count]
    exact List.length_pos_iff.mpr hdone
  obtain ⟨k, hk⟩ := Nat.exists_eq_succ_of_ne_zero (Nat.ne_of_gt hpos)
  have hlast := hinv.last k hk
  obtain ⟨g, hg, hnum⟩ := Option.map_eq_some_iff.mp hlast
  obtain ⟨hlt, rfl⟩ := List.getElem?_eq_some_iff.mp hg
  have hindex : ((s.groupid : Int) - 1) = (k : Int) := by omega
  rw [hindex, putGroup_of_lt _ hlt, Option.map_some, ← hnum]
  exact congrArg some (List.set_getElem_self hlt)

theorem sectionEnd_none {done : List (S × Nat × List K)} (hinv : Inv shape i s done) (hdone : done = []) :
    (putGroup s.groups (s.groupid - 1) fun g => some { g with channelsNum := s.channelsNum }) = none := by
  have hzero : s.groupid = 0 := by rw [hinv.count, hdone, List.length_nil]
  rw [hzero, putGroup, if_neg (by decide)]

theorem sectionEnd_opened {done : List (S × Nat × List K)} (hinv : Inv shape i s done) (hi : i < shape.groups)
    (hport : (scanFields v).f0 = port.toNat - 1) (hroom : (v :: vs).length ≤ shape.channels) :
    ∃ g gs, s.groups[s.groupid]? = some g ∧ g.channels.length = shape.channels ∧
      (putGroup (s.groups.set s.groupid (fill shape g 0 (v :: vs))) ((s.groupid + 1 : Nat) - 1) fun g =>
        some { g with channelsNum := 0 + (v :: vs).length }) = some gs ∧
      Inv shape (i + 1) ⟨gs, s.groupid + 1, 0 + (v :: vs).length⟩ (done ++ (reported shape port (v :: vs)).toList) := by
  have hgroupid := hinv.groupid
  have hlt : s.groupid < s.groups.length := by
    rw [hinv.groups]
    omega
  have hchannels := hinv.channels _ (List.getElem_mem hlt)
  have hindex : (((s.groupid + 1 : Nat) : Int) - 1) = (s.groupid : Int) := by omega
  refine ⟨s.groups[s.groupid], s.groups.set s.groupid { fill shape s.groups[s.groupid] 0 (v :: vs) with
    channelsNum := 0 + (v :: vs).length }, List.getElem?_eq_getElem hlt, hchannels, ?_, ?_⟩
  · rw [hindex, putGroup_of_lt _ (by rwa [List.length_set]), List.getElem_set_self, Option.map_some, List.set_set]
  have hview : Group.view { fill shape s.groups[s.groupid] 0 (v :: vs) with channelsNum := 0 + (v :: vs).length } =
      (shape.speed (scanFields ((v :: vs).getLast (List.cons_ne_nil v vs))).f3, vs.length + 1,
        (v :: vs).map fun v => shape.channel ((scanFields v).f2 + 1)) := by
    have htake := @fill_channels _ _ shape s.groups[s.groupid] (v :: vs) 0 (by
      rw [hchannels]
      omega)
    rw [Group.view]
    dsimp only
    rw [htake, fill_speed, Nat.zero_add]
    rfl
  constructor
  · exact List.length_set.trans hinv.groups
  · intro g hg
    rcases List.mem_or_eq_of_mem_set hg with hg | rfl
    · exact hinv.channels g hg
    · exact (fill_length _ _ _ _).trans hchannels
  · exact Nat.succ_le_succ hgroupid
  · rw [reported, if_pos hport, List.length_append, ← hinv.count]
    rfl
  · rw [reported, if_pos hport]
    dsimp only
    rw [List.take_succ_eq_append_getElem (by rwa [List.length_set]), List.getElem_set_self, List.map_append,
      List.take_set_of_le (Nat.le_refl _), hinv.views, List.map_singleton, hview]
    rfl
  · intro k hk
    obtain rfl : s.groupid = k := Nat.succ.inj hk
    rw [List.getElem?_set_self hlt]
    rfl

theorem sectionStep_some {done : List (S × Nat × List K)} (hinv : Inv shape i s done) (hi : i < shape.groups)
    (hi' : i < 255) (hlen : l.length < 256) (hsafe : Safe shape port l) (hfirst : done ≠ [] ∨ Matches port l) :
    ∃ s', sectionStep shape port i l s = some s' ∧
      Inv shape (i + 1) s' (done ++ (reported shape port l).toList) := by
  obtain ⟨gs, hclear, hinv'⟩ := clear_group hinv hi
  rw [sectionStep, hclear, Option.bind_some]
  -- a section that is not of the port leaves what was filled
  have hother : ¬ Matches port l → lineLoop shape port true l { s with groups := gs } = some { s with groups := gs } →
      ∃ s', ((lineLoop shape port true l { s with groups := gs }).bind fun s =>
        (putGroup s.groups (s.groupid - 1) fun g => some { g with channelsNum := s.channelsNum }).map fun gs =>
        { s with groups := gs }) = some s' ∧ Inv shape (i + 1) s' (done ++ (reported shape port l).toList) := by
    intro hno hloop
    have hreported : reported shape port l = none := Option.not_isSome_iff_eq_none.mp (mt reported_isSome.mp hno)
    rw [hloop, Option.bind_some, sectionEnd_same hinv' (hfirst.resolve_right hno), hreported]
    refine ⟨{ s with groups := gs }, rfl, ?_⟩
    rw [Option.toList_none, List.append_nil]
    exact ⟨hinv'.groups, hinv'.channels, Nat.le_succ_of_le hinv'.groupid, hinv'.count, hinv'.views, hinv'.last⟩
  cases l with
  | nil => exact hother (fun ⟨_, hv, _⟩ => nomatch hv) rfl
  | cons v vs =>
      have hv : ¬ 64 ≤ v.length := Nat.not_le_of_lt (hsafe.1 v rfl)
      by_cases hport : (scanFields v).f0 = port.toNat - 1
      · have hmatches : Matches port (v :: vs) := ⟨v, rfl, hport⟩
        obtain ⟨hroom, hfits⟩ := hsafe.2 hmatches
        obtain ⟨g, gs', hg, hchannels, hend, hnext⟩ := sectionEnd_opened hinv' hi hport hroom
        have hgroupid := hinv.groupid
        have hoctet : octet (s.groupid + 1 : Nat) = s.groupid + 1 := octet_of_lt (by omega)
        have hloop := @lineLoop_some _ _ shape port g ⟨gs, s.groupid + 1, 0⟩ (v :: vs) s.groupid rfl hg
          (show 0 + (v :: vs).length < 256 by omega)
          (show 0 + (v :: vs).length ≤ g.channels.length by
            rw [hchannels]
            omega) hfits
        rw [lineLoop_open hv hport]
        refine ⟨_, ?_, hnext⟩
        change ((lineLoop shape port false (v :: vs) ⟨gs, octet (s.groupid + 1 : Nat), 0⟩).bind _) = _
        rw [hoctet, hloop, Option.bind_some]
        dsimp only at hend ⊢
        rw [hend]
        rfl
      · exact hother (fun ⟨w, hw, hwport⟩ => hport (Option.some.inj hw ▸ hwport)) (lineLoop_other hv hport)

theorem sectionStep_none {done : List (S × Nat × List K)} (hinv : Inv shape i s done) (hi' : i < 255)
    (hlen : l.length < 256)
    (hno : ¬ (i < shape.groups ∧ Safe shape port l ∧ (done ≠ [] ∨ Matches port l))) :
    sectionStep shape port i l s = none := by
  by_cases hi : i < shape.groups
  · obtain ⟨gs, hclear, hinv'⟩ := clear_group hinv hi
    rw [sectionStep, hclear, Option.bind_some]
    by_cases hsafe : Safe shape port l
    · -- no group to write to
      have hfirst : ¬ (done ≠ [] ∨ Matches port l) := fun hfirst => hno ⟨hi, hsafe, hfirst⟩
      obtain ⟨hdone, hmatches⟩ := not_or.mp hfirst
      have hloop : lineLoop shape port true l { s with groups := gs } = some { s with groups := gs } := by
        cases l with
        | nil => rfl
        | cons v vs => exact lineLoop_other (Nat.not_le_of_lt (hsafe.1 v rfl)) fun hport => hmatches ⟨v, rfl, hport⟩
      rw [hloop, Option.bind_some, sectionEnd_none hinv' (not_not.mp hdone)]
      rfl
    · cases l with
      | nil => exact absurd ⟨nofun, fun ⟨_, hv, _⟩ => nomatch hv⟩ hsafe
      | cons v vs =>
          by_cases hv : 64 ≤ v.length
          · rw [lineLoop_long hv]
            rfl
          · have hhead : ∀ w ∈ (v :: vs).head?, w.length < 64 :=
              fun w hw => Option.some.inj hw ▸ Nat.lt_of_not_le hv
            have hmatches : Matches port (v :: vs) := by
              by_contra hm
              exact hsafe ⟨hhead, fun h => absurd h hm⟩
            obtain ⟨w, hw, hport⟩ := hmatches
            obtain rfl := Option.some.inj hw
            have hgroupid := hinv.groupid
            have hlt : s.groupid < gs.length := by
              rw [hinv'.groups]
              omega
            have hchannels : gs[s.groupid].channels.length = shape.channels :=
              hinv'.channels _ (List.getElem_mem hlt)
            have hoctet : octet (s.groupid + 1 : Nat) = s.groupid + 1 := octet_of_lt (by omega)
            have hloop := @lineLoop_none _ _ shape port gs[s.groupid] ⟨gs, s.groupid + 1, 0⟩ (v :: vs) s.groupid rfl
              (List.getElem?_eq_getElem hlt) (Nat.zero_le _) (show 0 + (v :: vs).length < 256 by omega)
              fun hall => hsafe ⟨hhead, fun _ => by
                have hroom : 0 + (v :: vs).length ≤ gs[s.groupid].channels.length := hall.1
                rw [hchannels] at hroom
                exact ⟨by omega, hall.2⟩⟩
            rw [lineLoop_open hv hport]
            change ((lineLoop shape port false (v :: vs) ⟨gs, octet (s.groupid + 1 : Nat), 0⟩).bind _) = _
            rw [hoctet, hloop]
            rfl
  · rw [sectionStep, putGroup_of_ge _ (by rw [hinv.groups]; omega)]
    rfl

def runSections (shape : Shape S K) (port : UInt8) : Nat → List (List Text) → State S K → Option (State S K)
  | _, [], s => some s
  | i, l :: ls, s => (sectionStep shape port i l s).bind (runSections shape port (i + 1) ls)

theorem sectionLoop_eq {h : CConfig} {ls : List (List Text)} (i : Nat) (hls : ∀ k (hk : k < ls.length) (s : State S K),
      linkLoop shape h port (i + k) (octet (cfgGetCount h sectionName (some linkId) (i + k + 1))) 0 s =
        lineLoop shape port true ls[k] s) (s : State S K) :
    sectionLoop shape h port ls.length i s = runSections shape port i ls s := by
  induction ls generalizing i s with
  | nil => rfl
  | cons l ls ih =>
      have hfirst : ∀ s : State S K, linkLoop shape h port i
          (octet (cfgGetCount h sectionName (some linkId) (i + 1))) 0 s = lineLoop shape port true l s :=
        hls 0 (Nat.succ_pos _)
      have hrest := ih (i + 1) fun k hk s => by
        have hk' := hls (k + 1) (Nat.succ_lt_succ hk) s
        rwa [show i + (k + 1) = i + 1 + k by omega] at hk'
      rw [runSections, sectionStep, List.length_cons, sectionLoop, Option.bind_assoc]
      apply congrArg
      funext gs
      rw [Option.bind_assoc, hfirst]
      apply congrArg
      funext s
      rw [Option.bind_map]
      apply congrArg
      funext gs
      exact hrest _

theorem reported_ne_nil {done : List (S × Nat × List K)} (h : done ≠ [] ∨ Matches port l) :
    done ++ (reported shape port l).toList ≠ [] := by
  intro hnil
  obtain ⟨hdone, hrep⟩ := List.append_eq_nil_iff.mp hnil
  rcases h with h | h
  · exact h hdone
  · obtain ⟨x, hx⟩ := Option.isSome_iff_exists.mp (show (reported shape port _).isSome from reported_isSome.mpr h)
    rw [hx] at hrep
    cases hrep

theorem runSections_some {ls : List (List Text)} {done : List (S × Nat × List K)} (hinv : Inv shape i s done)
    (hi : i + ls.length ≤ shape.groups) (hi' : i + ls.length ≤ 255) (hlen : ∀ l ∈ ls, l.length < 256)
    (hsafe : ∀ l ∈ ls, Safe shape port l) (hfirst : done ≠ [] ∨ ∀ l ∈ ls.head?, Matches port l) :
    ∃ s', runSections shape port i ls s = some s' ∧
      Inv shape (i + ls.length) s' (done ++ ls.filterMap (reported shape port)) := by
  induction ls generalizing i s done with
  | nil => exact ⟨s, rfl, (List.append_nil done).symm ▸ hinv⟩
  | cons l ls ih =>
      rw [List.length_cons] at hi hi'
      obtain ⟨hlen0, hlen⟩ := List.forall_mem_cons.mp hlen
      obtain ⟨hsafe0, hsafe⟩ := List.forall_mem_cons.mp hsafe
      have hfirst0 : done ≠ [] ∨ Matches port l := hfirst.imp_right fun h => h l rfl
      obtain ⟨s1, hstep, hinv1⟩ := sectionStep_some hinv (by omega) (by omega) hlen0 hsafe0 hfirst0
      obtain ⟨s', hrun, hinv'⟩ := ih hinv1 (by omega) (by omega) hlen hsafe (.inl (reported_ne_nil hfirst0))
      refine ⟨s', by rw [runSections, hstep, Option.bind_some, hrun], ?_⟩
      have hreports : (l :: ls).filterMap (reported shape port) =
          (reported shape port l).toList ++ ls.filterMap (reported shape port) := by
        rw [List.filterMap_cons]
        cases reported shape port l <;> rfl
      rw [hreports, ← List.append_assoc, List.length_cons, show i + (ls.length + 1) = i + 1 + ls.length by omega]
      exact hinv'

theorem runSections_none {ls : List (List Text)} {done : List (S × Nat × List K)} (hinv : Inv shape i s done)
    (hi : i ≤ shape.groups) (hi' : i + ls.length ≤ 255) (hlen : ∀ l ∈ ls, l.length < 256)
    (hno : ¬ (i + ls.length ≤ shape.groups ∧ (∀ l ∈ ls, Safe shape port l) ∧
      (done ≠ [] ∨ ∀ l ∈ ls.head?, Matches port l))) : runSections shape port i ls s = none := by
  induction ls generalizing i s done with
  | nil => exact absurd ⟨hi, nofun, .inr nofun⟩ hno
  | cons l ls ih =>
      rw [List.length_cons] at hi' hno
      obtain ⟨hlen0, hlen⟩ := List.forall_mem_cons.mp hlen
      by_cases hstep : i < shape.groups ∧ Safe shape port l ∧ (done ≠ [] ∨ Matches port l)
      · obtain ⟨hi0, hsafe0, hfirst0⟩ := hstep
        obtain ⟨s1, hs1, hinv1⟩ := sectionStep_some hinv hi0 (by omega) hlen0 hsafe0 hfirst0
        rw [runSections, hs1, Option.bind_some]
        apply ih hinv1 (by omega) (by omega) hlen
        rintro ⟨hroom, hsafe, -⟩
        exact hno ⟨by omega, List.forall_mem_cons.mpr ⟨hsafe0, hsafe⟩,
          hfirst0.imp_right fun h l' hl' => Option.some.inj hl' ▸ h⟩
      · rw [runSections, sectionStep_none hinv (by omega) hlen0 hstep]
        rfl

/-- The lines of the sections, in the order of the file. -/
def groupLinks (h : CConfig) : List (List Text) := (h.named sectionName).map (h.values (some linkId))

/-- As many lines of a section are looked at as its number has in an octet. -/
def looked (L : List Text) : List Text := L.take (L.length % 256)

theorem linkLoop_loaded {h : CConfig} {text : Text} (hload : cfgInitialize text = some h) {L : List Text}
    (hi : (groupLinks h)[i]? = some L) (s : State S K) :
    linkLoop shape h port i (octet (cfgGetCount h sectionName (some linkId) (i + 1))) 0 s =
      lineLoop shape port true (looked L) s := by
  rw [groupLinks, List.getElem?_map] at hi
  obtain ⟨tokens, htokens, rfl⟩ := Option.map_eq_some_iff.mp hi
  have hvalue : ∀ j, cfgGetValue h sectionName (some linkId) (j + 1) (i + 1) =
      (h.values (some linkId) tokens)[j]? := by
    intro j
    rw [cfgGetValue_eq, htokens]
    rfl
  rw [linkLoop_eq hvalue, List.drop_zero, looked]
  rcases named_unmixed hload htokens with hscalar | hvector
  · rw [cfgGetCount_eq htokens (fun t ht => (hscalar t ht).1) linkId]
    apply congrArg (fun n => lineLoop shape port true ((h.values (some linkId) tokens).take n) s)
    rw [octet]
    omega
  · -- a vector has no value of the name
    have hempty : h.values (some linkId) tokens = [] := by
      rw [CConfig.values, List.map_eq_nil_iff, List.filter_eq_nil_iff]
      intro t ht
      rw [(hvector t ht).2]
      exact Bool.false_ne_true
    rw [hempty, List.take_nil, List.take_nil]
    rfl

theorem filterMap_eq_iff {α β : Type} {f g : α → Option β} (hgf : ∀ a, (g a).isSome → (f a).isSome) (l r : List α) :
    l.filterMap g = (l ++ r).filterMap f ↔ (∀ a ∈ l, g a = f a) ∧ ∀ a ∈ r, f a = none := by
  have hle : ∀ l r : List α, (l.filterMap g).length ≤ ((l ++ r).filterMap f).length := by
    intro l r
    induction l with
    | nil => exact Nat.zero_le _
    | cons a l ih =>
        rw [List.cons_append, List.filterMap_cons, List.filterMap_cons]
        cases hg : g a with
        | none => cases f a with
          | none => exact ih
          | some b => exact Nat.le_succ_of_le ih
        | some b =>
            obtain ⟨b', hb'⟩ := Option.isSome_iff_exists.mp (hgf a (by rw [hg]; rfl))
            rw [hb']
            exact Nat.succ_le_succ ih
  constructor
  · intro h
    induction l with
    | nil => exact ⟨nofun, List.filterMap_eq_nil_iff.mp h.symm⟩
    | cons a l ih =>
        rw [List.cons_append, List.filterMap_cons, List.filterMap_cons] at h
        cases hg : g a with
        | none =>
            cases hf : f a with
            | none =>
                rw [hg, hf] at h
                obtain ⟨hl, hr⟩ := ih h
                exact ⟨List.forall_mem_cons.mpr ⟨hg.trans hf.symm, hl⟩, hr⟩
            | some b =>
                rw [hg, hf] at h
                have hlen : (l.filterMap g).length = ((l ++ r).filterMap f).length + 1 := congrArg List.length h
                have hshort := hle l r
                omega
        | some b =>
            obtain ⟨b', hf⟩ := Option.isSome_iff_exists.mp (hgf a (by rw [hg]; rfl))
            rw [hg, hf] at h
            obtain ⟨rfl, htail⟩ := List.cons.inj h
            obtain ⟨hl, hr⟩ := ih htail
            exact ⟨List.forall_mem_cons.mpr ⟨hg.trans hf.symm, hl⟩, hr⟩
  · rintro ⟨hl, hr⟩
    rw [List.filterMap_append, List.filterMap_eq_nil_iff.mpr hr, List.append_nil]
    exact List.filterMap_congr hl

theorem matches_of_looked {L : List Text} (h : Matches port (looked L)) : Matches port L := by
  obtain ⟨v, hv, hport⟩ := h
  refine ⟨v, ?_, hport⟩
  rw [looked, List.head?_take] at hv
  split at hv
  · cases hv
  · exact hv

theorem looked_eq_iff (L : List Text) : reported shape port (looked L) = reported shape port L ↔
    (Matches port L → L.length < 256) := by
  have hlen : (looked L).length = L.length % 256 := by
    rw [looked, List.length_take, Nat.min_eq_left (Nat.mod_le _ _)]
  by_cases hshort : L.length < 256
  · rw [looked, Nat.mod_eq_of_lt hshort, List.take_length]
    exact iff_of_true rfl fun _ => hshort
  · constructor
    · intro he hmatches
      obtain ⟨x, hx⟩ := Option.isSome_iff_exists.mp (show (reported shape port _).isSome from reported_isSome.mpr hmatches)
      have hcount : ∀ l, reported shape port l = some x → x.2.1 = l.length := by
        intro l hl
        cases l with
        | nil => cases hl
        | cons v vs =>
            rw [reported, Option.ite_none_right_eq_some] at hl
            obtain ⟨-, rfl⟩ := hl.imp_right Option.some.inj
            rfl
      have hwhole := hcount L hx
      have hpart := hcount (looked L) (he.trans hx)
      omega
    · intro hno
      have hL : ¬ Matches port L := fun hm => hshort (hno hm)
      have hlooked : ¬ Matches port (looked L) := fun hm => hL (matches_of_looked hm)
      rw [Option.not_isSome_iff_eq_none.mp (mt reported_isSome.mp hL),
        Option.not_isSome_iff_eq_none.mp (mt reported_isSome.mp hlooked)]

theorem looked_of_lt {L : List Text} (hL : L.length < 256) : looked L = L := by
  rw [looked, Nat.mod_eq_of_lt hL, List.take_length]

/-- The contents for which every write stays inside and all is reported. -/
def Meets (shape : Shape S K) (port : UInt8) (Ls : List (List Text)) : Prop :=
  let n := Ls.length % 256
  n ≤ shape.groups ∧ (∀ L ∈ (Ls.take n).head?, Matches port L) ∧
  (∀ L ∈ Ls.take n, (∀ v ∈ (looked L).head?, v.length < 64) ∧
    (Matches port L → L.length < 256 ∧ L.length ≤ shape.channels ∧ ∀ v ∈ L, Fits v)) ∧
  ∀ L ∈ Ls.drop n, ¬ Matches port L

/-- There is an outcome, and its groups are the sections of the port in the order of the file. -/
def Reports (shape : Shape S K) (type : FpgaType) (port : UInt8) (file : Text) (Ls : List (List Text)) : Prop :=
  ∃ info, sdhlibGetGfpInfo shape true type port (some file) = some (0, info) ∧
    (info.groups.take info.groupsNum).map Group.view = Ls.filterMap (reported shape port) ∧
    info.groupsNum = (Ls.filterMap (reported shape port)).length

def FpgaType.hasPort : FpgaType → UInt8 → Prop
  | .hp, port => port ≤ 4
  | .lp, port => port ≤ 16
  | .other, _ => False

theorem inv_blank (shape : Shape S K) : Inv shape 0 ⟨shape.blank.groups, 0, 0⟩ [] := by
  constructor
  · exact List.length_replicate
  · intro g hg
    obtain ⟨-, rfl⟩ := List.mem_replicate.mp hg
    exact List.length_replicate
  · exact Nat.le_refl 0
  · rfl
  · rfl
  · exact nofun

def lookedSections (Ls : List (List Text)) : List (List Text) := (Ls.take (Ls.length % 256)).map looked

theorem length_lookedSections (Ls : List (List Text)) : (lookedSections Ls).length = Ls.length % 256 := by
  rw [lookedSections, List.length_map, List.length_take, Nat.min_eq_left (Nat.mod_le _ _)]

theorem getGfpInfo_eq {type : FpgaType} {text : Text} {h : CConfig} (hport : type.hasPort port)
    (hload : cfgInitialize text = some h) : sdhlibGetGfpInfo shape true type port (some text) =
      (runSections shape port 0 (lookedSections (groupLinks h)) ⟨shape.blank.groups, 0, 0⟩).map fun s =>
        (0, { shape.blank with type := some type, groups := s.groups, groupsNum := s.groupid }) := by
  have hsections : octet (cfgGetCount h sectionName none 0) = (lookedSections (groupLinks h)).length := by
    rw [length_lookedSections, cfgGetCount_sections, groupLinks, List.length_map, octet]
    omega
  have hloop : sectionLoop shape h port (octet (cfgGetCount h sectionName none 0)) 0 ⟨shape.blank.groups, 0, 0⟩ =
      runSections shape port 0 (lookedSections (groupLinks h)) ⟨shape.blank.groups, 0, 0⟩ := by
    rw [hsections]
    apply sectionLoop_eq
    intro k hk s
    have hn : k < (groupLinks h).length % 256 := length_lookedSections (groupLinks h) ▸ hk
    have hlt : k < (groupLinks h).length := Nat.lt_of_lt_of_le hn (Nat.mod_le _ _)
    rw [Nat.zero_add, linkLoop_loaded hload (List.getElem?_eq_getElem hlt)]
    simp only [lookedSections, List.getElem_map, List.getElem_take]
  have hloaded : (match cfgInitialize text with
      | none => some (-1, { shape.blank with type := some type })
      | some h =>
          let secnum := octet (cfgGetCount h sectionName none 0)
          (sectionLoop shape h port secnum 0 ⟨shape.blank.groups, 0, 0⟩).map fun s =>
            (0, { shape.blank with type := some type, groups := s.groups, groupsNum := s.groupid })) =
      (runSections shape port 0 (lookedSections (groupLinks h)) ⟨shape.blank.groups, 0, 0⟩).map fun s =>
        ((0 : Int), { shape.blank with type := some type, groups := s.groups, groupsNum := s.groupid }) := by
    rw [hload]
    dsimp only
    rw [hloop]
  cases type with
  | hp =>
      have haccepted : ¬ port > 4 := UInt8.not_lt.mpr hport
      simp only [sdhlibGetGfpInfo, haccepted, decide_false, Bool.not_true, Bool.false_eq_true, if_false]
      exact hloaded
  | lp =>
      have haccepted : ¬ port > 16 := UInt8.not_lt.mpr hport
      simp only [sdhlibGetGfpInfo, haccepted, decide_false, Bool.not_true, Bool.false_eq_true, if_false]
      exact hloaded
  | other => exact hport.elim

theorem head?_map_looked {Ls : List (List Text)} {n : Nat} {P : List Text → Prop} :
    (∀ l ∈ ((Ls.take n).map looked).head?, P l) ↔ ∀ L ∈ (Ls.take n).head?, P (looked L) := by
  rw [List.head?_map]
  exact Option.forall_mem_map

theorem meets_iff (Ls : List (List Text)) : Meets shape port Ls ↔
    (Ls.length % 256 ≤ shape.groups ∧ (∀ l ∈ lookedSections Ls, Safe shape port l) ∧
      ∀ l ∈ (lookedSections Ls).head?, Matches port l) ∧
    (∀ L ∈ Ls.take (Ls.length % 256), reported shape port (looked L) = reported shape port L) ∧
    ∀ L ∈ Ls.drop (Ls.length % 256), reported shape port L = none := by
  have hnone : ∀ L, reported shape port L = none ↔ ¬ Matches port L := fun L =>
    Option.not_isSome_iff_eq_none.symm.trans (not_congr reported_isSome)
  rw [lookedSections, head?_map_looked, List.forall_mem_map]
  simp only [Meets, looked_eq_iff, hnone]
  constructor
  · rintro ⟨hroom, hfirst, hsafe, hbehind⟩
    refine ⟨⟨hroom, fun L hL => ⟨(hsafe L hL).1, fun hm => ?_⟩, fun L hL => ?_⟩, fun L hL hm => ((hsafe L hL).2 hm).1,
      hbehind⟩
    · obtain ⟨hlen, hrest⟩ := (hsafe L hL).2 (matches_of_looked hm)
      rwa [looked_of_lt hlen]
    · have hmem : L ∈ Ls.take (Ls.length % 256) := List.mem_of_mem_head? hL
      obtain ⟨hlen, -⟩ := (hsafe L hmem).2 (hfirst L hL)
      rw [looked_of_lt hlen]
      exact hfirst L hL
  · rintro ⟨⟨hroom, hsafe, hfirst⟩, hlen, hbehind⟩
    refine ⟨hroom, fun L hL => matches_of_looked (hfirst L hL), fun L hL => ⟨(hsafe L hL).1, fun hm => ?_⟩, hbehind⟩
    have hwhole : looked L = L := looked_of_lt (hlen L hL hm)
    obtain ⟨hroom, hfits⟩ := (hsafe L hL).2 (hwhole.symm ▸ hm)
    rw [hwhole] at hroom hfits
    exact ⟨hlen L hL hm, hroom, hfits⟩

theorem reports_iff {type : FpgaType} {text : Text} {h : CConfig} (hport : type.hasPort port)
    (hload : cfgInitialize text = some h) :
    Reports shape type port text (groupLinks h) ↔ Meets shape port (groupLinks h) := by
  have hlen := length_lookedSections (groupLinks h)
  have hmod : (groupLinks h).length % 256 < 256 := Nat.mod_lt _ (by decide)
  have hshort : ∀ l ∈ lookedSections (groupLinks h), l.length < 256 := by
    intro l hl
    obtain ⟨L, -, rfl⟩ := List.mem_map.mp hl
    rw [looked, List.length_take]
    omega
  rw [Reports, getGfpInfo_eq hport hload, meets_iff]
  by_cases hrun : (groupLinks h).length % 256 ≤ shape.groups ∧
      (∀ l ∈ lookedSections (groupLinks h), Safe shape port l) ∧
      ∀ l ∈ (lookedSections (groupLinks h)).head?, Matches port l
  · obtain ⟨hroom, hsafe, hfirst⟩ := hrun
    obtain ⟨s, hs, hinv⟩ := runSections_some (inv_blank shape) (by omega) (by omega) hshort hsafe (.inr hfirst)
    have hdone : [] ++ (lookedSections (groupLinks h)).filterMap (reported shape port) =
        ((groupLinks h).take ((groupLinks h).length % 256)).filterMap (reported shape port ∘ looked) :=
      List.filterMap_map ..
    have hreport := @filterMap_eq_iff _ _ (reported shape port) (reported shape port ∘ looked)
      (fun L hL => reported_isSome.mpr (matches_of_looked (reported_isSome.mp hL)))
      ((groupLinks h).take ((groupLinks h).length % 256)) ((groupLinks h).drop ((groupLinks h).length % 256))
    rw [List.take_append_drop] at hreport
    rw [hdone] at hinv
    rw [hs, Option.map_some, and_iff_right ⟨hroom, hsafe, hfirst⟩]
    refine Iff.trans ?_ hreport
    constructor
    · rintro ⟨info, hinfo, hviews, -⟩
      obtain ⟨-, rfl⟩ := Prod.mk.inj (Option.some.inj hinfo)
      exact hinv.views.symm.trans hviews
    · intro he
      exact ⟨_, rfl, hinv.views.trans he, hinv.count.trans (congrArg List.length he)⟩
  · have hnone : runSections shape port 0 (lookedSections (groupLinks h)) ⟨shape.blank.groups, 0, 0⟩ = none := by
      apply runSections_none (inv_blank shape) (Nat.zero_le _) (by omega) hshort
      rintro ⟨hroom, hsafe, hfirst⟩
      rw [Nat.zero_add, hlen] at hroom
      exact hrun ⟨hroom, hsafe, hfirst.resolve_left (not_not.mpr rfl)⟩
    rw [hnone]
    exact iff_of_false (fun ⟨_, hinfo, _⟩ => nomatch hinfo) fun hmeets => hrun hmeets.1

theorem getGfpInfo_refused {type : FpgaType} {text : Text} (h : ¬ type.hasPort port ∨ cfgInitialize text = none) :
    sdhlibGetGfpInfo shape true type port (some text) = some (-1, { shape.blank with type := some type }) := by
  have hloaded : cfgInitialize text = none → (match cfgInitialize text with
      | none => some (-1, { shape.blank with type := some type })
      | some h =>
          let secnum := octet (cfgGetCount h sectionName none 0)
          (sectionLoop shape h port secnum 0 ⟨shape.blank.groups, 0, 0⟩).map fun s =>
            (0, { shape.blank with type := some type, groups := s.groups, groupsNum := s.groupid })) =
      some ((-1 : Int), { shape.blank with type := some type }) := fun hload => by rw [hload]
  cases type with
  | hp =>
      by_cases hport : port > 4
      · simp only [sdhlibGetGfpInfo, hport, decide_true, Bool.not_true, Bool.false_eq_true, if_false, if_true]
      · simp only [sdhlibGetGfpInfo, hport, decide_false, Bool.not_true, Bool.false_eq_true, if_false]
        exact hloaded (h.resolve_left (not_not.mpr (UInt8.not_lt.mp hport)))
  | lp =>
      by_cases hport : port > 16
      · simp only [sdhlibGetGfpInfo, hport, decide_true, Bool.not_true, Bool.false_eq_true, if_false, if_true]
      · simp only [sdhlibGetGfpInfo, hport, decide_false, Bool.not_true, Bool.false_eq_true, if_false]
        exact hloaded (h.resolve_left (not_not.mpr (UInt8.not_lt.mp hport)))
  | other => rfl

/-- The groups of a port are reported, and nothing is written outside, exactly for these contents. -/
theorem gfp_report_iff (shape : Shape S K) (type : FpgaType) (port : UInt8) (text : Text) :
    (∀ h, type.hasPort port → cfgInitialize text = some h →
      (Reports shape type port text (groupLinks h) ↔ Meets shape port (groupLinks h))) ∧
    (¬ type.hasPort port ∨ cfgInitialize text = none →
      sdhlibGetGfpInfo shape true type port (some text) = some (-1, { shape.blank with type := some type })) :=
  ⟨fun _ => reports_iff, getGfpInfo_refused⟩

def otherFiber : Text := "[Sgfp Group Info]\nlink = 1,0,0,1\n".toList

theorem otherFiber_none (shape : Shape S K) : sdhlibGetGfpInfo shape true .hp 1 (some otherFiber) = none := by
  obtain ⟨h, hload⟩ : ∃ h, cfgInitialize otherFiber = some h := ⟨_, rfl⟩
  have hlinks : groupLinks h = [["1,0,0,1".toList]] := by
    obtain rfl := Option.some.inj hload
    rfl
  have hport : FpgaType.hp.hasPort 1 := show (1 : UInt8) ≤ 4 by decide
  rw [getGfpInfo_eq hport hload, hlinks, runSections_none (inv_blank shape) (Nat.zero_le _) (by decide) (by decide)]
  · rfl
  · rintro ⟨-, -, hfirst⟩
    exact absurd (hfirst.resolve_left (not_not.mpr rfl) _ rfl) (by decide)

/-- A section of another port before the first one of the port. -/
theorem other_port_first : ¬ ∀ (shape : Shape Int Int) (type : FpgaType) (port : UInt8) (text : Text) (h : CConfig),
    0 < shape.groups → 0 < shape.channels → type.hasPort port → cfgInitialize text = some h →
    Reports shape type port text (groupLinks h) := by
  intro hall
  obtain ⟨h, hload⟩ : ∃ h, cfgInitialize otherFiber = some h := ⟨_, rfl⟩
  obtain ⟨info, hinfo, -⟩ := hall ⟨16, 63, id, id⟩ .hp 1 otherFiber h (by decide) (by decide)
    (show (1 : UInt8) ≤ 4 by decide) hload
  rw [otherFiber_none] at hinfo
  cases hinfo

end OiAmc.SdhGfp
