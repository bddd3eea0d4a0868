import OiAmc.AgingFile
import OiAmc.CascadeFitting
import OiAmc.OldGroupsRun

/-! Where the tables of the groups are written to, and the loops that print them. -/

namespace OiAmc.CascadeTables

open Cconfig Numerals SgfpGroup GotoLoop AgingFile

/-- The places of ginfo that a load writes to, up to the section it stops at. -/
def loadWrites (hd : CConfig) : Nat → Nat → List Nat
  | 0, _ => []
  | n + 1, i => i :: if (loadGroup hd i ⟨0, 0, 0, []⟩).map Prod.fst = some true then loadWrites hd n (i + 1) else []

/-- A value whose fields go into buftmp and result. -/
def FieldsFit (room : Nat) (v : Text) : Prop := ∃ fs rest, v = commas fs ++ rest ∧ (∀ f ∈ fs, Field f) ∧
  (',' ∉ rest ∧ fs.length < room ∨ rest.head? = some ',' ∧ fs.length ≤ room)

structure Taken (hd : CConfig) (k : Nat) : Prop where
  groupid : ∀ v ∈ cfgGetValue hd sectionName (some groupidName) 1 (k + 1), v.length < 128
  flag : ∀ v ∈ cfgGetValue hd sectionName (some flagName) 1 (k + 1), v.length < 128
  links : ∀ j < (cfgGetCount hd sectionName (some linkName) (k + 1)).toNat,
    ∃ v ∈ cfgGetValue hd sectionName (some linkName) (j + 1) (k + 1), FieldsFit 30 v

variable {hd : CConfig} {p f q : Text} {result : List Int} {i n k : Nat}

theorem strchr_eq_none : strchr ',' p = none ↔ ',' ∉ p := by
  rw [strchr]
  split
  · rename_i hc
    exact iff_of_false (by simp) fun h => h hc
  · rename_i hc
    exact iff_of_true rfl hc

theorem strchr_eq_some : strchr ',' p = some (f, q) ↔ p = f ++ ',' :: q ∧ ',' ∉ f := by
  constructor
  · intro h
    rw [strchr] at h
    split at h
    · rename_i hc
      obtain ⟨rfl, rfl⟩ := Prod.mk.inj (Option.some.inj h)
      refine ⟨?_, fun hmem => by simpa using List.mem_takeWhile_imp hmem⟩
      have hne : p.dropWhile (· ≠ ',') ≠ [] := by
        intro hnil
        exact absurd (List.dropWhile_eq_nil_iff.mp hnil ',' hc) (by simp)
      have hhead : (p.dropWhile (· ≠ ',')).head hne = ',' := by
        have h := List.head_dropWhile_not (fun c => decide (c ≠ ',')) hne
        simpa using h
      conv_lhs => rw [← List.takeWhile_append_dropWhile (p := fun c => decide (c ≠ ',')) (l := p),
        ← List.cons_head_tail hne, hhead]
    · cases h
  · rintro ⟨rfl, hf⟩
    exact strchr_append hf

theorem commas_cons (f : Text) (fs : List Text) (rest : Text) :
    commas (f :: fs) ++ rest = f ++ ',' :: (commas fs ++ rest) := by
  rw [commas, List.flatMap_cons, ← commas, List.append_assoc, List.append_assoc]
  rfl

theorem fieldLoop_isSome (hi : i ≤ result.length) : (fieldLoop result i p).isSome ↔ FieldsFit (result.length - i) p := by
  induction h : p.length using Nat.strong_induction_on generalizing p i result with
  | _ len ih =>
      rw [fieldLoop]
      split
      · rename_i hnone
        have hcomma := strchr_eq_none.mp hnone
        rw [putResult]
        constructor
        · intro hput
          split at hput
          · exact ⟨[], p, rfl, List.forall_mem_nil _, .inl ⟨hcomma, by rw [List.length_nil]; omega⟩⟩
          · cases hput
        · rintro ⟨fs, rest, rfl, -, hend⟩
          cases fs with
          | nil =>
              rcases hend with ⟨-, hroom⟩ | ⟨hhead, -⟩
              · rw [List.length_nil] at hroom
                rw [if_pos (by omega)]
                rfl
              · exact absurd (List.mem_of_mem_head? hhead) hcomma
          | cons f fs =>
              rw [commas_cons] at hcomma
              exact absurd (List.mem_append_right f List.mem_cons_self) hcomma
      · rename_i buftmp q hsome
        obtain ⟨hp, hbuf⟩ := strchr_eq_some.mp hsome
        -- the first field is the one in front of the first comma
        have hfirst : ∀ fs rest, p = commas fs ++ rest → (∀ f ∈ fs, Field f) →
            (fs = [] ∧ ',' ∈ rest ∧ (rest.head? = some ',' → buftmp = [])) ∨
              ∃ fs', fs = buftmp :: fs' ∧ q = commas fs' ++ rest := by
          intro fs rest he hfs
          cases fs with
          | nil =>
              have hrest : rest = buftmp ++ ',' :: q := he.symm.trans hp
              refine .inl ⟨rfl, hrest ▸ List.mem_append_right _ List.mem_cons_self, fun hhead => ?_⟩
              rw [hrest] at hhead
              cases buftmp with
              | nil => rfl
              | cons c buf => exact absurd (Option.some.inj hhead ▸ List.mem_cons_self) hbuf
          | cons f fs =>
              rw [commas_cons] at he
              have hsame := strchr_eq_some.mpr ⟨he, (hfs f List.mem_cons_self).1⟩
              obtain ⟨rfl, rfl⟩ := Prod.mk.inj (Option.some.inj (hsome.symm.trans hsame))
              exact .inr ⟨fs, rfl, rfl⟩
        by_cases hnil : buftmp = []
        · rw [if_pos hnil]
          refine iff_of_true rfl ⟨[], p, rfl, List.forall_mem_nil _, .inr ⟨?_, Nat.zero_le _⟩⟩
          rw [hp, hnil]
          rfl
        · rw [if_neg hnil]
          have hfs : FieldsFit (result.length - i) p ↔ buftmp.length < 64 ∧ i < result.length ∧
              FieldsFit (result.length - (i + 1)) q := by
            constructor
            · rintro ⟨fs, rest, he, hfields, hend⟩
              rcases hfirst fs rest he hfields with ⟨rfl, hmem, hhead⟩ | ⟨fs', rfl, hq⟩
              · rcases hend with ⟨hno, -⟩ | ⟨hcomma, -⟩
                · exact absurd hmem hno
                · exact absurd (hhead hcomma) hnil
              · obtain ⟨hbuftmp, hfields⟩ := List.forall_mem_cons.mp hfields
                rw [List.length_cons] at hend
                refine ⟨hbuftmp.2.2, by omega, fs', rest, hq, hfields, ?_⟩
                exact hend.imp (fun h => ⟨h.1, by omega⟩) fun h => ⟨h.1, by omega⟩
            · rintro ⟨hlen, hlt, fs, rest, rfl, hfields, hend⟩
              refine ⟨buftmp :: fs, rest, hp.trans (commas_cons _ _ _).symm,
                List.forall_mem_cons.mpr ⟨⟨hbuf, hnil, hlen⟩, hfields⟩, ?_⟩
              rw [List.length_cons]
              exact hend.imp (fun h => ⟨h.1, by omega⟩) fun h => ⟨h.1, by omega⟩
          rw [hfs]
          by_cases hlong : 64 ≤ buftmp.length
          · rw [if_pos hlong]
            exact iff_of_false (by simp) fun h => Nat.not_lt_of_le hlong h.1
          · rw [if_neg hlong, putResult]
            by_cases hlt : i < result.length
            · have hshort : q.length < len := by
                rw [← h, hp, List.length_append, List.length_cons]
                omega
              have hrest : (fieldLoop (result.set i (strtol 0 buftmp).1) (i + 1) q).isSome ↔
                  FieldsFit ((result.set i (strtol 0 buftmp).1).length - (i + 1)) q :=
                ih q.length hshort (by rwa [List.length_set]) rfl
              rw [List.length_set] at hrest
              rw [if_pos hlt, Option.bind_some, hrest]
              exact ⟨fun hq => ⟨Nat.lt_of_not_le hlong, hlt, hq⟩, fun hq => hq.2.2⟩
            · rw [if_neg hlt]
              exact iff_of_false (by simp) fun h => hlt h.2.1

theorem readLinks_reads (n j : Nat) (links : List Slink) :
    (readLinks hd i n j links).map Prod.fst = some true ↔
      ∀ k, j ≤ k → k < j + n → ∃ v ∈ cfgGetValue hd sectionName (some linkName) (k + 1) (i + 1), FieldsFit 30 v := by
  induction n generalizing j links with
  | zero => exact iff_of_true rfl fun k h1 h2 => absurd h2 (Nat.not_lt_of_le h1)
  | succ n ih =>
      have hsplit : (∀ k, j ≤ k → k < j + (n + 1) →
            ∃ v ∈ cfgGetValue hd sectionName (some linkName) (k + 1) (i + 1), FieldsFit 30 v) ↔
          (∃ v ∈ cfgGetValue hd sectionName (some linkName) (j + 1) (i + 1), FieldsFit 30 v) ∧
            ∀ k, j + 1 ≤ k → k < j + 1 + n →
              ∃ v ∈ cfgGetValue hd sectionName (some linkName) (k + 1) (i + 1), FieldsFit 30 v := by
        constructor
        · exact fun h => ⟨h j (Nat.le_refl j) (by omega), fun k h1 h2 => h k (by omega) (by omega)⟩
        · rintro ⟨hj, hrest⟩ k h1 h2
          rcases Nat.eq_or_lt_of_le h1 with rfl | hlt
          · exact hj
          · exact hrest k hlt (by omega)
      rw [hsplit, readLinks, readCfgid]
      cases hv : cfgGetValue hd sectionName (some linkName) (j + 1) (i + 1) with
      | none => exact iff_of_false (by simp) fun h => absurd h.1 (by simp)
      | some value =>
          have hfit : (fieldLoop (List.replicate 30 0) 0 value).isSome ↔ FieldsFit 30 value :=
            fieldLoop_isSome (Nat.zero_le _)
          dsimp only
          cases hf : fieldLoop (List.replicate 30 0) 0 value with
          | none =>
              rw [hf] at hfit
              refine iff_of_false (by simp) ?_
              rintro ⟨⟨v, hmem, hv⟩, -⟩
              obtain rfl := Option.some.inj hmem
              exact absurd (hfit.mpr hv) Bool.false_ne_true
          | some result =>
              rw [hf] at hfit
              rw [Option.map_some, Option.bind_some]
              exact (ih (j + 1) _).trans (and_iff_right ⟨value, rfl, hfit.mp rfl⟩).symm

theorem shortValue_isSome {id : Text} : (shortValue hd id k).isSome ↔
    ∀ v ∈ cfgGetValue hd sectionName (some id) 1 (k + 1), v.length < 128 := by
  rw [shortValue]
  cases cfgGetValue hd sectionName (some id) 1 (k + 1) with
  | none => exact iff_of_true rfl (by simp)
  | some value =>
      dsimp only
      split
      · rename_i hlong
        exact iff_of_false (by simp) fun h => Nat.not_lt_of_le hlong (h value rfl)
      · rename_i hlong
        refine iff_of_true rfl fun v hv => ?_
        obtain rfl := Option.some.inj hv
        exact Nat.lt_of_not_le hlong

theorem loadGroup_takes (g : Group) : (loadGroup hd k g).map Prod.fst = some true ↔ Taken hd k := by
  rw [loadGroup]
  have hid := @shortValue_isSome hd k groupidName
  have hflag := @shortValue_isSome hd k flagName
  cases h1 : shortValue hd groupidName k with
  | none =>
      rw [h1] at hid
      exact iff_of_false (by simp) fun h => absurd (hid.mpr h.groupid) Bool.false_ne_true
  | some id =>
      cases h2 : shortValue hd flagName k with
      | none =>
          rw [h2] at hflag
          exact iff_of_false (by simp) fun h => absurd (hflag.mpr h.flag) Bool.false_ne_true
      | some flag =>
          rw [h1] at hid
          rw [h2] at hflag
          rw [Option.bind_some, Option.bind_some]
          dsimp only
          rw [Option.map_map]
          have hlinks := @readLinks_reads hd k (cfgGetCount hd sectionName (some linkName) (k + 1)).toNat
            0 (List.replicate (cfgGetCount hd sectionName (some linkName) (k + 1)).toNat .zero)
          refine Iff.trans hlinks ⟨fun h => ⟨hid.mp rfl, hflag.mp rfl, fun j hj => h j (Nat.zero_le j) (by omega)⟩,
            fun h j _ hj => h.links j (by omega)⟩

theorem loadGroup_none (g g' : Group) (h : loadGroup hd k g = none) : loadGroup hd k g' = none := by
  rw [loadGroup] at h ⊢
  apply Option.bind_eq_none_iff.mpr
  intro id hid
  have h1 := Option.bind_eq_none_iff.mp h id hid
  apply Option.bind_eq_none_iff.mpr
  intro flag hflag
  have h2 := Option.bind_eq_none_iff.mp h1 flag hflag
  exact Option.map_eq_none_iff.mpr (Option.map_eq_none_iff.mp h2)

/-- A load has no outcome when it writes outside of ginfo, or when a value of a section overruns its buffer. -/
theorem loadGroups_eq_none {ginfo : List Group} : loadGroups hd n i ginfo = none ↔
    ∃ w ∈ loadWrites hd n i, ginfo.length ≤ w ∨ loadGroup hd w ⟨0, 0, 0, []⟩ = none := by
  induction n generalizing i ginfo with
  | zero => exact iff_of_false (by rw [loadGroups]; simp) (by simp [loadWrites])
  | succ n ih =>
      rw [loadGroups, loadWrites]
      cases hg : ginfo[i]? with
      | none => exact iff_of_true rfl ⟨i, List.mem_cons_self, .inl (List.getElem?_eq_none_iff.mp hg)⟩
      | some g =>
          have hlt : i < ginfo.length := (List.getElem?_eq_some_iff.mp hg).1
          rw [Option.bind_some]
          cases hload : loadGroup hd i g with
          | none => exact iff_of_true rfl ⟨i, List.mem_cons_self, .inr (loadGroup_none g _ hload)⟩
          | some r =>
              have hblank : loadGroup hd i ⟨0, 0, 0, []⟩ ≠ none := by
                intro hnone
                rw [loadGroup_none _ g hnone] at hload
                cases hload
              have hreads : (loadGroup hd i ⟨0, 0, 0, []⟩).map Prod.fst = some true ↔ r.1 = true := by
                rw [loadGroup_takes, ← loadGroup_takes g, hload, Option.map_some, Option.some_inj]
              rw [Option.bind_some]
              by_cases hr : r.1 = true
              · rw [if_pos hr, if_pos (hreads.mpr hr), ih, List.length_set]
                constructor
                · rintro ⟨w, hw, h⟩
                  exact ⟨w, List.mem_cons_of_mem i hw, h⟩
                · rintro ⟨w, hw, h⟩
                  rcases List.mem_cons.mp hw with rfl | hw
                  · exact (h.elim (Nat.not_le_of_lt hlt) hblank).elim
                  · exact ⟨w, hw, h⟩
              · rw [if_neg hr, if_neg (mt hreads.mp hr)]
                refine iff_of_false (by simp) ?_
                rintro ⟨w, hw, h⟩
                obtain rfl := List.mem_singleton.mp hw
                exact h.elim (Nat.not_le_of_lt hlt) hblank

theorem loadWrites_lt {room : Nat} : (∀ w ∈ loadWrites hd n i, w < room) ↔
    n = 0 ∨ i + n ≤ room ∨ ∃ k, i ≤ k ∧ k < room ∧ ¬ Taken hd k := by
  induction n generalizing i with
  | zero => exact iff_of_true (List.forall_mem_nil _) (.inl rfl)
  | succ n ih =>
      rw [loadWrites, List.forall_mem_cons]
      by_cases htaken : Taken hd i
      · rw [if_pos ((loadGroup_takes _).mpr htaken), ih]
        constructor
        · rintro ⟨hi, rfl | hroom | ⟨k, h1, h2, hk⟩⟩
          · exact .inr (.inl hi)
          · exact .inr (.inl (by omega))
          · exact .inr (.inr ⟨k, by omega, h2, hk⟩)
        · rintro (h | hroom | ⟨k, h1, h2, hk⟩)
          · cases h
          · exact ⟨by omega, .inr (.inl (by omega))⟩
          · have hne : k ≠ i := fun he => hk (he ▸ htaken)
            exact ⟨by omega, .inr (.inr ⟨k, by omega, h2, hk⟩)⟩
      · rw [if_neg (mt (loadGroup_takes _).mp htaken)]
        constructor
        · exact fun h => .inr (.inr ⟨i, Nat.le_refl i, h.1, htaken⟩)
        · rintro (h | hroom | ⟨k, h1, h2, -⟩)
          · cases h
          · exact ⟨by omega, List.forall_mem_nil _⟩
          · exact ⟨by omega, List.forall_mem_nil _⟩

def LoadInside (file : Text) : Prop := ∀ hd, cfgInitialize file = some hd →
  ∀ w ∈ loadWrites hd (cfgGetCount hd sectionName none 0).toNat 0, w < AgingFile.maxGroup

/-- There are not too many sections, or one of the first stops the load. -/
def LoadRoom (file : Text) : Prop := ∀ hd, cfgInitialize file = some hd →
  (hd.named sectionName).length ≤ AgingFile.maxGroup ∨ ∃ k < AgingFile.maxGroup, ¬ Taken hd k

theorem loadInside_iff (file : Text) : LoadInside file ↔ LoadRoom file := by
  apply forall_congr'
  intro hd
  apply imp_congr_right
  intro _
  rw [cfgGetCount_sections, Int.toNat_natCast, loadWrites_lt, Nat.zero_add]
  constructor
  · rintro (hzero | hroom | ⟨k, -, hk⟩)
    · exact .inl (hzero ▸ Nat.zero_le _)
    · exact .inl hroom
    · exact .inr ⟨k, hk⟩
  · rintro (hroom | ⟨k, hk⟩)
    · exact .inr (.inl hroom)
    · exact .inr (.inr ⟨k, Nat.zero_le k, hk⟩)

/-- `"%hhu,%hhu,%hhu,%hhu"` -/
def rateText (l : SlinkInfo) : Text :=
  decimal l.fiber.toNat ++ ',' :: decimal l.fiberRate.toNat ++ ',' :: decimal l.channel.toNat ++
    ',' :: decimal l.channelRate.toNat

def printFileLink (g : SgroupInfo) (j : UInt8) (text : Text) : Option Text :=
  (g.link j.toNat).map fun l => text ++ line linkName (rateText l)

/-- A group goes to one of the files, the learned ones in front. -/
def printFileGroup (fuel : Nat) (ginfo : List SgroupInfo) (i : UInt8) (files : Text × Text) : Option (Text × Text) :=
  (ginfo[i.toNat]?).bind fun g =>
    let mNSize := g.linkarraysSize % 256
    (byteLoop mNSize (printFileLink g) fuel sectionLine).map fun text =>
      if g.isValid = 0 then (files.1, files.2 ++ text) else (files.1 ++ text, files.2)

/-- print_file, where both files are opened. -/
def printFile (fuel : Nat) (setGroup : List SgroupInfo) (setGroupInfoCout : Int) (setGroupC4 : List SgroupInfo)
    (setGroupInfoCoutC4 : Int) : Option (Text × Text) :=
  (byteLoop setGroupInfoCout (printFileGroup fuel setGroup) fuel ([], [])).bind fun files =>
  byteLoop setGroupInfoCoutC4 (printFileGroup fuel setGroupC4) fuel files

/-- The arrays that are printed: their counted groups have as many links as they say. -/
structure Printed where
  allGroup : AllGroup
  first : Bool
  setGroupInfoCout : Int
  newGroupCout : Int
  setGroup : List SgroupInfo
  setGroupC4 : List SgroupInfo
  setGroupInfoCoutC4 : Int
  room : (if first then setGroupInfoCout else newGroupCout) ≤ allGroup.ginfo.length ∧
    setGroupInfoCout ≤ setGroup.length ∧ setGroupInfoCoutC4 ≤ setGroupC4.length
  whole : ∀ g ∈ allGroup.ginfo.take (if first then setGroupInfoCout else newGroupCout).toNat,
    g.linkarraysSize = g.linkarrays.length
  linked : ∀ g ∈ setGroup.take setGroupInfoCout.toNat ++ setGroupC4.take setGroupInfoCoutC4.toNat,
    ∃ links, g.linkarrays = some links ∧ g.linkarraysSize = links.length

theorem byteLoop_iff {σ : Type} {body : Nat → UInt8 → σ → Option σ} {bound : Int}
    (hbody : ∀ k : Nat, k < bound → k < 256 → ∀ fuel, 256 ≤ fuel → ∀ s, ∃ t, body fuel (UInt8.ofNat k) s = some t)
    (s : σ) : ((∃ fuel t, byteLoop bound (body fuel) fuel s = some t) ↔ bound ≤ 255) ∧
      (bound ≤ 255 → ∀ fuel, 256 ≤ fuel → ∃ t, byteLoop bound (body fuel) fuel s = some t) := by
  have hends : bound ≤ 255 → ∀ fuel, 256 ≤ fuel → ∃ t, byteLoop bound (body fuel) fuel s = some t := by
    intro hle fuel hfuel
    by_cases hneg : bound < 0
    · obtain ⟨n, rfl⟩ := Nat.exists_eq_succ_of_ne_zero (show fuel ≠ 0 by omega)
      refine ⟨s, ?_⟩
      rw [byteLoop, loop, byteStep, if_neg (by have := (0 : UInt8).toNat_lt; omega)]
      rfl
    · obtain ⟨n, rfl⟩ := Int.eq_ofNat_of_zero_le (Int.not_lt.mp hneg)
      exact byteLoop_ends (fun k hk s => hbody k (Int.ofNat_lt.mpr hk) (by omega) fuel hfuel s) (by omega) (by omega) s
  refine ⟨⟨?_, fun hle => ⟨256, hends hle 256 (Nat.le_refl _)⟩⟩, hends⟩
  rintro ⟨fuel, t, ht⟩
  by_contra hbound
  rw [byteLoop_never (by omega)] at ht
  cases ht

theorem printGroup_ends {ginfo : List Group} (hwhole : ∀ g ∈ ginfo.take n, g.linkarraysSize = g.linkarrays.length)
    (first : Bool) (hn : k < n) (hk : k < ginfo.length) (hk' : k < 256) {fuel : Nat} (hfuel : 256 ≤ fuel) (s : Text) :
    ∃ t, printGroup first fuel ginfo (UInt8.ofNat k) s = some t := by
  have hbyte : (UInt8.ofNat k).toNat = k := UInt8.toNat_ofNat_of_lt' hk'
  have hsize := hwhole ginfo[k] (List.mem_take_iff_getElem.mpr ⟨k, by omega, rfl⟩)
  rw [printGroup, hbyte, List.getElem?_eq_getElem hk, Option.bind_some]
  dsimp only
  obtain ⟨m, hm⟩ := Int.eq_ofNat_of_zero_le (Int.emod_nonneg ginfo[k].linkarraysSize (show (256 : Int) ≠ 0 by decide))
  rw [hm]
  apply byteLoop_ends
  · intro j hj s
    have hj' : (UInt8.ofNat j).toNat = j := UInt8.toNat_ofNat_of_lt' (show j < 256 by omega)
    rw [printLink, hj', List.getElem?_eq_getElem (show j < ginfo[k].linkarrays.length by omega)]
    exact ⟨_, rfl⟩
  · omega
  · omega

theorem printFileGroup_ends {ginfo : List SgroupInfo}
    (hlinked : ∀ g ∈ ginfo.take n, ∃ links, g.linkarrays = some links ∧ g.linkarraysSize = links.length)
    (hn : k < n) (hk : k < ginfo.length) (hk' : k < 256) {fuel : Nat} (hfuel : 256 ≤ fuel) (s : Text × Text) :
    ∃ t, printFileGroup fuel ginfo (UInt8.ofNat k) s = some t := by
  have hbyte : (UInt8.ofNat k).toNat = k := UInt8.toNat_ofNat_of_lt' hk'
  obtain ⟨links, hlinks, hsize⟩ := hlinked ginfo[k] (List.mem_take_iff_getElem.mpr ⟨k, by omega, rfl⟩)
  obtain ⟨m, hm⟩ := Int.eq_ofNat_of_zero_le (Int.emod_nonneg ginfo[k].linkarraysSize (show (256 : Int) ≠ 0 by decide))
  have hloop : ∃ t, byteLoop m (printFileLink ginfo[k]) fuel sectionLine = some t := by
    apply byteLoop_ends
    · intro j hj s
      have hj' : (UInt8.ofNat j).toNat = j := UInt8.toNat_ofNat_of_lt' (show j < 256 by omega)
      rw [printFileLink, hj', SgroupInfo.link, hlinks, Option.bind_some,
        List.getElem?_eq_getElem (show j < links.length by omega)]
      exact ⟨_, rfl⟩
    · omega
    · omega
  obtain ⟨t, ht⟩ := hloop
  rw [printFileGroup, hbyte, List.getElem?_eq_getElem hk, Option.bind_some]
  dsimp only
  rw [hm, ht]
  exact ⟨_, rfl⟩

/-- The loops of print_groupfile end, with enough rounds. -/
def Printed.GroupfileEnds (p : Printed) : Prop :=
  ∃ fuel r, printGroupfile fuel p.allGroup p.first p.setGroupInfoCout p.newGroupCout = some r

/-- The loops of print_file end, with enough rounds. -/
def Printed.FileEnds (p : Printed) : Prop :=
  ∃ fuel r, printFile fuel p.setGroup p.setGroupInfoCout p.setGroupC4 p.setGroupInfoCoutC4 = some r

theorem groupfileEnds_iff (p : Printed) : p.GroupfileEnds ↔
    (if p.first then p.setGroupInfoCout else p.newGroupCout) ≤ 255 := by
  have hbody : ∀ k : Nat, k < (if p.first then p.setGroupInfoCout else p.newGroupCout) → k < 256 →
      ∀ fuel, 256 ≤ fuel → ∀ s, ∃ t, printGroup p.first fuel p.allGroup.ginfo (UInt8.ofNat k) s = some t := by
    intro k hk hk' fuel hfuel s
    have hroom := p.room.1
    exact printGroup_ends p.whole p.first (by omega) (by omega) hk' hfuel s
  refine Iff.trans ?_ (byteLoop_iff hbody []).1
  constructor
  · rintro ⟨fuel, r, hr⟩
    obtain ⟨t, ht, -⟩ := Option.map_eq_some_iff.mp hr
    exact ⟨fuel, t, ht⟩
  · rintro ⟨fuel, t, ht⟩
    exact ⟨fuel, _, Option.map_eq_some_iff.mpr ⟨t, ht, rfl⟩⟩

theorem fileEnds_iff (p : Printed) : p.FileEnds ↔ p.setGroupInfoCout ≤ 255 ∧ p.setGroupInfoCoutC4 ≤ 255 := by
  obtain ⟨-, hset, hc4⟩ := p.room
  have hbody : ∀ k : Nat, k < p.setGroupInfoCout → k < 256 → ∀ fuel, 256 ≤ fuel → ∀ s,
      ∃ t, printFileGroup fuel p.setGroup (UInt8.ofNat k) s = some t := fun k hk hk' fuel hfuel s =>
    printFileGroup_ends (fun g hg => p.linked g (List.mem_append_left _ hg)) (by omega) (by omega) hk' hfuel s
  have hbodyC4 : ∀ k : Nat, k < p.setGroupInfoCoutC4 → k < 256 → ∀ fuel, 256 ≤ fuel → ∀ s,
      ∃ t, printFileGroup fuel p.setGroupC4 (UInt8.ofNat k) s = some t := fun k hk hk' fuel hfuel s =>
    printFileGroup_ends (fun g hg => p.linked g (List.mem_append_right _ hg)) (by omega) (by omega) hk' hfuel s
  constructor
  · rintro ⟨fuel, r, hr⟩
    obtain ⟨files, hfiles, hr⟩ := Option.bind_eq_some_iff.mp hr
    exact ⟨(byteLoop_iff hbody _).1.mp ⟨fuel, files, hfiles⟩, (byteLoop_iff hbodyC4 _).1.mp ⟨fuel, r, hr⟩⟩
  · rintro ⟨hle, hleC4⟩
    obtain ⟨files, hfiles⟩ := (byteLoop_iff hbody ([], [])).2 hle 256 (Nat.le_refl _)
    obtain ⟨r, hr⟩ := (byteLoop_iff hbodyC4 files).2 hleC4 256 (Nat.le_refl _)
    exact ⟨256, r, Option.bind_eq_some_iff.mpr ⟨files, hfiles, hr⟩⟩

section

open PartialLists OldGroups OldGroupsMerge OldGroupsRun

/-- How many of the old groups are neither flagged nor the first ones with a learned id. -/
def unseen (ids : List Int) : List Int → List SgroupInfo → Nat
  | _, [] => 0
  | seen, g :: gs =>
      (if g.flag = 1 ∨ g.groupId ∈ ids ∧ g.groupId ∉ seen then 0 else 1) + unseen ids (g.groupId :: seen) gs

variable {ids seen : List Int} {id : Int} {gs : List SgroupInfo} {g : SgroupInfo} {st : MapState}

theorem unseen_seen (hid : id ∈ seen) : unseen (id :: ids) seen gs = unseen ids seen gs := by
  induction gs generalizing seen with
  | nil => rfl
  | cons g gs ih =>
      have hiff : (g.groupId ∈ id :: ids ∧ g.groupId ∉ seen) ↔ g.groupId ∈ ids ∧ g.groupId ∉ seen := by
        apply and_congr_left
        intro hg
        have hne : g.groupId ≠ id := fun he => hg (he ▸ hid)
        exact ⟨fun h => (List.mem_cons.mp h).resolve_left hne, List.mem_cons_of_mem id⟩
      rw [unseen, unseen, ih (List.mem_cons_of_mem _ hid)]
      simp only [hiff]

theorem unseen_mark (hid : id ∉ seen) (n : Nat) :
    unseen ids seen ((markFirst id n gs).take n) = unseen (id :: ids) seen (gs.take n) := by
  induction gs generalizing n seen with
  | nil =>
      rw [List.eq_nil_of_length_eq_zero (markFirst_length id n []), List.take_nil]
      rfl
  | cons g gs ih =>
      cases n with
      | zero => rfl
      | succ n =>
          rw [markFirst]
          by_cases hg : g.groupId = id
          · rw [if_pos hg, List.take_succ_cons, List.take_succ_cons, unseen, unseen, if_pos (.inl rfl),
              if_pos (.inr ⟨hg ▸ List.mem_cons_self, hg.symm ▸ hid⟩), unseen_seen (hg ▸ List.mem_cons_self)]
          · have hiff : (g.groupId ∈ id :: ids ∧ g.groupId ∉ seen) ↔ g.groupId ∈ ids ∧ g.groupId ∉ seen :=
              and_congr_left' ⟨fun h => (List.mem_cons.mp h).resolve_left hg, List.mem_cons_of_mem id⟩
            have hnext : id ∉ g.groupId :: seen := by
              intro h
              rcases List.mem_cons.mp h with he | h
              · exact hg he.symm
              · exact hid h
            rw [if_neg hg, List.take_succ_cons, List.take_succ_cons, unseen, unseen, ih hnext]
            simp only [hiff]

theorem unseen_nil (seen : List Int) (gs : List SgroupInfo) :
    unseen [] seen gs = (gs.filter fun d => d.flag ≠ 1).length := by
  induction gs generalizing seen with
  | nil => rfl
  | cons g gs ih =>
      rw [unseen, ih]
      by_cases hflag : g.flag = 1
      · rw [if_pos (.inl hflag), List.filter_cons_of_neg (by simpa using hflag), Nat.zero_add]
      · rw [if_neg (fun h => h.elim hflag fun h => List.not_mem_nil h.1),
          List.filter_cons_of_pos (by simpa using hflag), List.length_cons, Nat.add_comm]

theorem unseen_marks (n : Nat) (ids : List Int) (gs : List SgroupInfo) :
    ((((ids.foldl (fun d id => markFirst id n d) gs)).take n).filter fun d => d.flag ≠ 1).length =
      unseen ids [] (gs.take n) := by
  have hfold : ∀ rest : List Int, unseen rest [] ((ids.foldl (fun d id => markFirst id n d) gs).take n) =
      unseen (ids ++ rest) [] (gs.take n) := by
    induction ids generalizing gs with
    | nil => exact fun _ => rfl
    | cons id ids ih =>
        intro rest
        rw [List.foldl_cons, ih, unseen_mark List.not_mem_nil]
        rfl
  rw [← unseen_nil [], hfold [], List.append_nil]

theorem putNew_room (hwhole : Whole (content g)) (flag : Int) (hlen : st.new.length = OldGroups.maxGroup) :
    (st.newCount < OldGroups.maxGroup → ∃ new, new.length = OldGroups.maxGroup ∧
      putNew st g flag = some { st with new := new, newCount := st.newCount + 1 }) ∧
    (¬ st.newCount < OldGroups.maxGroup → putNew st g flag = none) := by
  constructor
  · intro hroom
    obtain ⟨st', hst', hlen', hcount⟩ := putNew_defined hwhole flag (hlen.symm ▸ hroom) hlen
    obtain ⟨-, hsame⟩ := putNew_eq_some hst'
    exact ⟨st'.new, hlen'.trans hlen, by rw [hst', ← hcount, ← hsame]⟩
  · intro hroom
    obtain ⟨links, hlinks⟩ := copyLinks_defined hwhole
    rw [putNew]
    simp only [hlinks, Option.bind_eq_bind, Option.bind_some, putGroup, hlen, if_neg hroom, Option.bind_none]

theorem putSet_room (hwhole : Whole (content g)) (hlen : st.set.length = OldGroups.maxGroup) :
    (st.setCount < OldGroups.maxGroup → ∃ set, set.length = OldGroups.maxGroup ∧
      putSet st g = some { st with set := set, setCount := st.setCount + 1 }) ∧
    (¬ st.setCount < OldGroups.maxGroup → putSet st g = none) := by
  constructor
  · intro hroom
    obtain ⟨st', hst', hlen', hcount⟩ := putSet_defined hwhole (hlen.symm ▸ hroom) hlen
    obtain ⟨-, hsame, -⟩ := putSet_eq_some hst'
    exact ⟨st'.set, hlen'.trans hlen, by rw [hst', ← hcount, ← hsame]⟩
  · intro hroom
    obtain ⟨links, hlinks⟩ := copyLinks_defined hwhole
    rw [putSet]
    simp only [hlinks, Option.bind_eq_bind, Option.bind_some, putGroup, hlen, if_neg hroom, Option.bind_none]

theorem learned_rounds (hlearned : ∀ g ∈ st.set.take st.setCount, Whole (content g))
    (hset : st.setCount ≤ st.set.length) (hnew : st.new.length = OldGroups.maxGroup) (hk : k ≤ st.setCount) :
    (st.newCount + k ≤ OldGroups.maxGroup → ∃ new, new.length = OldGroups.maxGroup ∧
      (List.range k).foldlM learnedRound st = some { st with
        new := new
        newCount := st.newCount + k
        deal := ((st.set.take k).map fun g => g.groupId).foldl (fun d id => markFirst id st.dealSize d) st.deal }) ∧
    (st.newCount ≤ OldGroups.maxGroup → ¬ st.newCount + k ≤ OldGroups.maxGroup →
      (List.range k).foldlM learnedRound st = none) := by
  induction k with
  | zero => exact ⟨fun _ => ⟨st.new, hnew, rfl⟩, fun h hno => absurd h hno⟩
  | succ k ih =>
      obtain ⟨hsome, hnone⟩ := ih (Nat.le_of_succ_le hk)
      have hlt : k < st.set.length := by omega
      have hwhole := hlearned st.set[k] (List.mem_take_iff_getElem.mpr ⟨k, by omega, rfl⟩)
      rw [foldlM_range_succ]
      by_cases hroom : st.newCount + k ≤ OldGroups.maxGroup
      · obtain ⟨new, hlen, hfold⟩ := hsome hroom
        rw [hfold, Option.bind_some, learnedRound, List.getElem?_eq_getElem hlt]
        simp only [Option.bind_eq_bind, Option.bind_some]
        obtain ⟨hput, hfull⟩ := @putNew_room _ { st with
          new := new
          newCount := st.newCount + k
          deal := markFirst st.set[k].groupId st.dealSize
            (((st.set.take k).map fun g => g.groupId).foldl (fun d id => markFirst id st.dealSize d) st.deal) } hwhole 1
          hlen
        constructor
        · intro hfit
          obtain ⟨new', hlen', hput⟩ := hput (show st.newCount + k < OldGroups.maxGroup from hfit)
          refine ⟨new', hlen', hput.trans ?_⟩
          rw [List.take_succ_eq_append_getElem hlt, List.map_append, List.foldl_append]
          rfl
        · intro _ hfit
          exact hfull fun h => hfit h
      · refine ⟨fun hfit => absurd hfit (by omega), fun hle _ => ?_⟩
        rw [hnone hle hroom]
        rfl

theorem old_rounds (hkept : ∀ c ∈ contents st.deal st.dealSize, Whole c) (hdeal : st.dealSize ≤ st.deal.length)
    (hset : st.set.length = OldGroups.maxGroup) (hnew : st.new.length = OldGroups.maxGroup)
    (hcount : st.newCount ≤ OldGroups.maxGroup ∧ st.setCount ≤ OldGroups.maxGroup) (hk : k ≤ st.dealSize) {u : Nat}
    (hu : u = ((st.deal.take k).filter fun d => d.flag ≠ 1).length) :
    (st.newCount + u ≤ OldGroups.maxGroup ∧ st.setCount + u ≤ OldGroups.maxGroup → ∃ new set,
      new.length = OldGroups.maxGroup ∧ set.length = OldGroups.maxGroup ∧
      (List.range k).foldlM oldRound st = some { st with
        new := new, newCount := st.newCount + u, set := set, setCount := st.setCount + u }) ∧
    (¬ (st.newCount + u ≤ OldGroups.maxGroup ∧ st.setCount + u ≤ OldGroups.maxGroup) →
      (List.range k).foldlM oldRound st = none) := by
  induction k generalizing u with
  | zero =>
      obtain rfl : u = 0 := hu
      exact ⟨fun _ => ⟨st.new, st.set, hnew, hset, rfl⟩, fun hno => absurd hcount hno⟩
  | succ k ih =>
      obtain ⟨hsome, hnone⟩ := ih (Nat.le_of_succ_le hk) rfl
      have hlt : k < st.deal.length := by omega
      have hmem : st.deal[k] ∈ st.deal.take st.dealSize := List.mem_take_iff_getElem.mpr ⟨k, by omega, rfl⟩
      have hwhole : Whole (content st.deal[k]) := hkept _ (List.mem_map_of_mem hmem)
      rw [List.take_succ_eq_append_getElem hlt, List.filter_append, List.length_append] at hu
      rw [foldlM_range_succ]
      generalize hv : ((st.deal.take k).filter fun d => d.flag ≠ 1).length = v at hsome hnone hu
      by_cases hroom : st.newCount + v ≤ OldGroups.maxGroup ∧ st.setCount + v ≤ OldGroups.maxGroup
      · obtain ⟨new, set, hlen, hlen', hfold⟩ := hsome hroom
        rw [hfold, Option.bind_some, oldRound, List.getElem?_eq_getElem hlt]
        simp only [Option.bind_eq_bind, Option.bind_some]
        by_cases hflag : st.deal[k].flag = 1
        · rw [List.filter_cons_of_neg (by simpa using hflag), List.filter_nil, List.length_nil, Nat.add_zero] at hu
          rw [if_pos hflag, hu]
          exact ⟨fun _ => ⟨new, set, hlen, hlen', rfl⟩, fun hno => absurd hroom hno⟩
        · rw [List.filter_cons_of_pos (by simpa using hflag), List.filter_nil, List.length_singleton] at hu
          rw [if_neg hflag, hu]
          obtain ⟨hput, hfull⟩ := @putNew_room _ { st with
            new := new, newCount := st.newCount + v, set := set, setCount := st.setCount + v } hwhole
            st.deal[k].flag hlen
          constructor
          · rintro ⟨hfit, hfit'⟩
            obtain ⟨new', hnew', hput⟩ := hput (show st.newCount + v < OldGroups.maxGroup by omega)
            obtain ⟨set', hset', hputSet⟩ := (@putSet_room _ { st with
              new := new', newCount := st.newCount + v + 1, set := set, setCount := st.setCount + v } hwhole hlen').1
              (show st.setCount + v < OldGroups.maxGroup by omega)
            refine ⟨new', set', hnew', hset', ?_⟩
            rw [hput, Option.bind_some]
            exact hputSet
          · intro hfit
            by_cases hlast : st.newCount + v < OldGroups.maxGroup
            · obtain ⟨new', hnew', hput⟩ := hput hlast
              rw [hput, Option.bind_some]
              exact (@putSet_room _ { st with
                new := new', newCount := st.newCount + v + 1, set := set, setCount := st.setCount + v } hwhole hlen').2
                (show ¬ st.setCount + v < OldGroups.maxGroup by omega)
            · rw [hfull hlast]
              rfl
      · rw [hnone hroom]
        exact ⟨fun hfit => absurd hfit (by omega), fun _ => rfl⟩

theorem marks_content (n : Nat) (ids : List Int) (gs : List SgroupInfo) :
    (ids.foldl (fun d id => markFirst id n d) gs).map content = gs.map content ∧
      (ids.foldl (fun d id => markFirst id n d) gs).length = gs.length := by
  induction ids generalizing gs with
  | nil => exact ⟨rfl, rfl⟩
  | cons id ids ih =>
      obtain ⟨hcontent, hlength⟩ := ih (markFirst id n gs)
      exact ⟨hcontent.trans (markFirst_content id n gs), hlength.trans (markFirst_length id n gs)⟩

/-- The tables of a port, as update_new_map and check_old_group find them: of the groups that they hold the links can
be copied. -/
structure Tables where
  st : MapState
  rooms : st.set.length = OldGroups.maxGroup ∧ st.deal.length = OldGroups.maxGroup ∧
    st.new.length = OldGroups.maxGroup
  counts : st.setCount ≤ OldGroups.maxGroup ∧ st.dealCount ≤ OldGroups.maxGroup ∧
    st.dealSize ≤ OldGroups.maxGroup ∧ st.newCount ≤ OldGroups.maxGroup
  learned : ∀ g ∈ st.set.take st.setCount, Whole (content g)
  old : ∀ g ∈ st.old, Whole (content g)
  kept : ∀ c ∈ contents st.deal st.dealSize, Whole c

/-- update_new_map writes inside of the arrays. -/
def Tables.UpdateInside (t : Tables) : Prop := ∃ st', updateNewMap t.st = some st'

/-- There is room for the learned groups and the old ones that are none of them. -/
def Tables.UpdateRoom (t : Tables) : Prop :=
  let ids := (t.st.set.take t.st.setCount).map fun g => g.groupId
  let added := unseen ids [] (t.st.deal.take t.st.dealSize)
  t.st.newCount + t.st.setCount + added ≤ OldGroups.maxGroup ∧ t.st.setCount + added ≤ OldGroups.maxGroup

theorem updateInside_iff (t : Tables) : t.UpdateInside ↔ t.UpdateRoom := by
  obtain ⟨hset, hdeal, hnew⟩ := t.rooms
  obtain ⟨hsetCount, -, hdealSize, hnewCount⟩ := t.counts
  obtain ⟨hsome, hnone⟩ := learned_rounds t.learned (hset.symm ▸ hsetCount) hnew (Nat.le_refl t.st.setCount)
  rw [Tables.UpdateInside, Tables.UpdateRoom, updateNewMap]
  simp only [Option.bind_eq_bind]
  by_cases hroom : t.st.newCount + t.st.setCount ≤ OldGroups.maxGroup
  · obtain ⟨new, hlen, hfold⟩ := hsome hroom
    generalize (t.st.set.take t.st.setCount).map (fun g => g.groupId) = ids at hfold ⊢
    have hu := unseen_marks t.st.dealSize ids t.st.deal
    obtain ⟨hcontent, hlength⟩ := marks_content t.st.dealSize ids t.st.deal
    have hcontents : contents (ids.foldl (fun d id => markFirst id t.st.dealSize d) t.st.deal) t.st.dealSize =
        contents t.st.deal t.st.dealSize := by
      rw [contents, contents, List.map_take, List.map_take, hcontent]
    have hlength' : t.st.dealSize ≤ (ids.foldl (fun d id => markFirst id t.st.dealSize d) t.st.deal).length := by
      rw [hlength, hdeal]
      exact hdealSize
    obtain ⟨hrun, hstop⟩ := @old_rounds t.st.dealSize { t.st with
      new := new
      newCount := t.st.newCount + t.st.setCount
      deal := ids.foldl (fun d id => markFirst id t.st.dealSize d) t.st.deal }
      (hcontents.symm ▸ t.kept) hlength' hset hlen ⟨hroom, hsetCount⟩ (Nat.le_refl _) _ hu.symm
    rw [hfold, Option.bind_some]
    constructor
    · rintro ⟨st', hst'⟩
      by_contra hfit
      rw [hstop hfit] at hst'
      cases hst'
    · intro hfit
      obtain ⟨new', set', -, -, hst'⟩ := hrun hfit
      exact ⟨_, hst'⟩
  · rw [hnone hnewCount hroom]
    refine iff_of_false (by simp) fun h => hroom ?_
    omega

/-- What setmap holds after some groups, for the last of their links on a port and a channel. -/
def enter (g : SgroupInfo) (m : SetMap) (j : Nat) : SetMap :=
  match g.link j with
  | some l => Function.update m l.member ⟨g.groupId, g.linkarraysSize, l.vcValid, l.svcType, 1⟩
  | none => m

def entered (gs : List SgroupInfo) : SetMap :=
  gs.foldl (fun m g => (List.range g.linkarraysSize.toNat).foldl (enter g) m) fun _ => ⟨0, 0, 0, 0, 0⟩

/-- The links of a group are on ports and channels that setmap has. -/
def LinksInside (g : SgroupInfo) : Prop := ∀ j < g.linkarraysSize.toNat, ∀ l ∈ g.link j, InMap l

def passes (ports : Nat → PortState) (m : SetMap) (g : SgroupInfo) (j : Nat) : Bool :=
  (g.link j).all fun l => ¬ (ports (l.fiber.toNat % 4)).alarm ∧ ¬ Conflict (m l.member) g l

/-- Up to the first link whose port has an alarm or that is in conflict, all are on ports and channels that setmap
has, but for the one with the alarm. -/
def LooksInside (ports : Nat → PortState) (m : SetMap) (g : SgroupInfo) : List Nat → Prop
  | [] => True
  | j :: js => ∀ l ∈ g.link j, (ports (l.fiber.toNat % 4)).alarm ∨
      InMap l ∧ (Conflict (m l.member) g l ∨ LooksInside ports m g js)

/-- An old group none of whose links meets an alarm or a conflict. -/
def clear (ports : Nat → PortState) (m : SetMap) (g : SgroupInfo) : Bool :=
  (List.range g.linkarraysSize.toNat).all (passes ports m g)

variable {ports : Nat → PortState} {m : SetMap}

theorem link_of_whole (hg : Whole (content g)) (hk : k < g.linkarraysSize.toNat) : ∃ l, g.link k = some l :=
  hg.2 (g.link k) (List.mem_map_of_mem (List.mem_range.mpr hk))

theorem mapGroup_iff (hg : Whole (content g)) (m : SetMap) :
    (LinksInside g → mapGroup m g = some ((List.range g.linkarraysSize.toNat).foldl (enter g) m)) ∧
      (¬ LinksInside g → mapGroup m g = none) := by
  constructor
  · intro hin
    obtain ⟨m', hm', rfl⟩ := foldlM_sim (f := mapLink g) (g := enter g) (R := Eq)
      (List.range g.linkarraysSize.toNat) (by
        rintro s _ j hj rfl
        have hlt := List.mem_range.mp hj
        obtain ⟨l, hl⟩ := link_of_whole hg hlt
        refine ⟨_, ?_, rfl⟩
        rw [mapLink, enter, hl]
        simp only [Option.bind_eq_bind, Option.bind_some]
        exact if_pos (hin j hlt l hl)) (s := m) rfl
    exact hm'
  · intro hno
    by_contra hsome
    obtain ⟨m', hm'⟩ := Option.ne_none_iff_exists'.mp hsome
    apply hno
    intro j hj l hl
    obtain ⟨u, v, huv⟩ := foldlM_mem hm' (List.mem_range.mpr hj)
    rw [mapLink, Option.mem_def.mp hl] at huv
    simp only [Option.bind_eq_bind, Option.bind_some] at huv
    by_contra hin
    rw [if_neg hin] at huv
    cases huv

theorem buildMap_iff (hgs : ∀ g ∈ gs, Whole (content g)) :
    ((∀ g ∈ gs, LinksInside g) → buildMap gs = some (entered gs)) ∧
      (¬ (∀ g ∈ gs, LinksInside g) → buildMap gs = none) := by
  constructor
  · intro hin
    obtain ⟨m', hm', rfl⟩ := foldlM_sim (f := mapGroup)
      (g := fun m g => (List.range g.linkarraysSize.toNat).foldl (enter g) m) (R := Eq) gs (by
        rintro s _ g hg rfl
        exact ⟨_, (mapGroup_iff (hgs g hg) s).1 (hin g hg), rfl⟩) (s := fun _ => ⟨0, 0, 0, 0, 0⟩) rfl
    exact hm'
  · intro hno
    by_contra hsome
    obtain ⟨m', hm'⟩ := Option.ne_none_iff_exists'.mp hsome
    apply hno
    intro g hg
    obtain ⟨u, v, huv⟩ := foldlM_mem hm' hg
    by_contra hout
    rw [(mapGroup_iff (hgs g hg) u).2 hout] at huv
    cases huv

theorem flagged_iff (hg : Whole (content g)) {js : List Nat} (hjs : ∀ j ∈ js, j < g.linkarraysSize.toNat) :
    (LooksInside ports m g js → flagged ports m g js = some (!js.all (passes ports m g))) ∧
      (¬ LooksInside ports m g js → flagged ports m g js = none) := by
  induction js with
  | nil => exact ⟨fun _ => rfl, fun hno => absurd trivial hno⟩
  | cons j js ih =>
      obtain ⟨hj, hjs⟩ := List.forall_mem_cons.mp hjs
      obtain ⟨l, hl⟩ := link_of_whole hg hj
      have hlooks : LooksInside ports m g (j :: js) ↔ (ports (l.fiber.toNat % 4)).alarm ∨
          InMap l ∧ (Conflict (m l.member) g l ∨ LooksInside ports m g js) := by
        rw [LooksInside, hl]
        exact ⟨fun h => h l rfl, fun h l' hl' => Option.some.inj hl' ▸ h⟩
      have hpasses : passes ports m g j = decide (¬ (ports (l.fiber.toNat % 4)).alarm ∧ ¬ Conflict (m l.member) g l) := by
        rw [passes, hl, Option.all_some]
      rw [hlooks, List.all_cons, hpasses, flagged, hl]
      simp only [Option.bind_eq_bind, Option.bind_some]
      by_cases halarm : (ports (l.fiber.toNat % 4)).alarm
      · rw [if_pos halarm, decide_eq_false (fun h => h.1 halarm), Bool.false_and]
        exact ⟨fun _ => rfl, fun hno => absurd (.inl halarm) hno⟩
      · rw [if_neg halarm]
        by_cases hin : InMap l
        · rw [if_neg (not_not.mpr hin)]
          by_cases hconflict : Conflict (m l.member) g l
          · rw [if_pos hconflict, decide_eq_false (fun h => h.2 hconflict), Bool.false_and]
            exact ⟨fun _ => rfl, fun hno => absurd (.inr ⟨hin, .inl hconflict⟩) hno⟩
          · rw [if_neg hconflict, decide_eq_true ⟨halarm, hconflict⟩, Bool.true_and]
            obtain ⟨hsome, hnone⟩ := ih hjs
            exact ⟨fun h => hsome ((h.resolve_left halarm).2.resolve_left hconflict),
              fun hno => hnone fun h => hno (.inr ⟨hin, .inr h⟩)⟩
        · rw [if_pos hin]
          exact ⟨fun h => absurd (h.resolve_left halarm).1 hin, fun _ => rfl⟩

theorem checkGroup_iff (hg : Whole (content g)) (hlen : st.deal.length = OldGroups.maxGroup) :
    (LooksInside ports m g (List.range g.linkarraysSize.toNat) →
      (clear ports m g = false → checkGroup ports m st g = some st) ∧
      (clear ports m g = true → (st.dealCount < OldGroups.maxGroup → ∃ deal, deal.length = OldGroups.maxGroup ∧
          checkGroup ports m st g = some { st with deal := deal, dealCount := st.dealCount + 1 }) ∧
        (¬ st.dealCount < OldGroups.maxGroup → checkGroup ports m st g = none))) ∧
    (¬ LooksInside ports m g (List.range g.linkarraysSize.toNat) → checkGroup ports m st g = none) := by
  obtain ⟨hsome, hnone⟩ := @flagged_iff g ports m hg (List.range g.linkarraysSize.toNat) fun j => List.mem_range.mp
  obtain ⟨links, hlinks⟩ := copyLinks_defined hg
  constructor
  · intro hlooks
    have hflag : flagged ports m g (List.range g.linkarraysSize.toNat) = some (!clear ports m g) := hsome hlooks
    rw [checkGroup, hflag]
    simp only [Option.bind_eq_bind, Option.bind_some, hlinks]
    constructor
    · intro hclear
      rw [hclear]
      rfl
    · intro hclear
      rw [hclear, Bool.not_true, if_neg Bool.false_ne_true]
      constructor
      · intro hroom
        rw [putGroup, if_pos (hlen.symm ▸ hroom), Option.bind_some, if_neg (by omega)]
        exact ⟨_, (List.length_modify _ _ _).trans hlen, rfl⟩
      · intro hroom
        rw [putGroup, if_neg (hlen.symm ▸ hroom)]
        rfl
  · intro hlooks
    rw [checkGroup, hnone hlooks]
    rfl

theorem checkGroups_iff (hgs : ∀ g ∈ gs, Whole (content g)) (hlen : st.deal.length = OldGroups.maxGroup)
    (hcount : st.dealCount ≤ OldGroups.maxGroup) : (∃ st', gs.foldlM (checkGroup ports m) st = some st') ↔
      (∀ g ∈ gs, LooksInside ports m g (List.range g.linkarraysSize.toNat)) ∧
        st.dealCount + (gs.filter (clear ports m)).length ≤ OldGroups.maxGroup := by
  induction gs generalizing st with
  | nil => exact iff_of_true ⟨st, rfl⟩ ⟨List.forall_mem_nil _, hcount⟩
  | cons g gs ih =>
      obtain ⟨hg, hgs⟩ := List.forall_mem_cons.mp hgs
      obtain ⟨hin, hout⟩ := @checkGroup_iff g st ports m hg hlen
      rw [List.foldlM_cons, List.forall_mem_cons]
      by_cases hlooks : LooksInside ports m g (List.range g.linkarraysSize.toNat)
      · obtain ⟨hskip, hkeep⟩ := hin hlooks
        rw [and_iff_right hlooks]
        cases hclear : clear ports m g with
        | false =>
            rw [hskip hclear, List.filter_cons_of_neg (by rw [hclear]; simp)]
            exact ih hgs hlen hcount
        | true =>
            obtain ⟨hroom, hfull⟩ := hkeep hclear
            rw [List.filter_cons_of_pos hclear, List.length_cons]
            by_cases hlt : st.dealCount < OldGroups.maxGroup
            · obtain ⟨deal, hdeal, hst⟩ := hroom hlt
              rw [hst]
              refine Iff.trans (@ih { st with deal := deal, dealCount := st.dealCount + 1 } hgs hdeal hlt) ?_
              dsimp only
              rw [Nat.add_assoc, Nat.add_comm 1]
            · rw [hfull hlt]
              exact iff_of_false (by simp) fun h => by omega
      · rw [hout hlooks]
        exact iff_of_false (by simp) fun h => hlooks h.1.1

/-- check_old_group stays inside of setmap and of the array of the groups that it keeps. -/
def Tables.CheckInside (t : Tables) (status : Option (Nat → PortState)) : Prop :=
  (∃ m, buildMap (t.st.set.take t.st.setCount) = some m) ∧
    ∀ ports ∈ status, ∃ st', checkOldGroup (some ports) t.st = some st'

def Tables.CheckRoom (t : Tables) (status : Option (Nat → PortState)) : Prop :=
  (∀ g ∈ t.st.set.take t.st.setCount, LinksInside g) ∧ ∀ ports ∈ status,
    let m := entered (t.st.set.take t.st.setCount)
    (∀ g ∈ t.st.old, LooksInside ports m g (List.range g.linkarraysSize.toNat)) ∧
      t.st.dealCount + (t.st.old.filter (clear ports m)).length ≤ OldGroups.maxGroup

theorem checkInside_iff (t : Tables) (status : Option (Nat → PortState)) :
    t.CheckInside status ↔ t.CheckRoom status := by
  obtain ⟨hin, hout⟩ := buildMap_iff t.learned
  rw [Tables.CheckInside, Tables.CheckRoom]
  by_cases hlinks : ∀ g ∈ t.st.set.take t.st.setCount, LinksInside g
  · rw [hin hlinks, and_iff_right ⟨_, rfl⟩, and_iff_right hlinks]
    apply forall_congr'
    intro ports
    apply imp_congr_right
    intro _
    refine Iff.trans ?_ (checkGroups_iff t.old t.rooms.2.1 t.counts.2.1)
    rw [checkOldGroup, hin hlinks]
    simp only [Option.bind_eq_bind, Option.bind_some]
    constructor
    · rintro ⟨st', hst'⟩
      obtain ⟨st0, hst0, -⟩ := Option.bind_eq_some_iff.mp hst'
      exact ⟨st0, hst0⟩
    · rintro ⟨st0, hst0⟩
      exact ⟨_, Option.bind_eq_some_iff.mpr ⟨st0, hst0, rfl⟩⟩
  · rw [hout hlinks]
    exact iff_of_false (fun h => absurd h.1 (by simp)) fun h => hlinks h.1

end

section

open CascadeTry CascadeRounds CascadeRun CascadeBatching CascadeFitting

structure Tries where
  world : World
  tryGroup : List SgroupInfo
  st : TryState
  load : List.Forall₂ Made st.cfgs tryGroup
  nonempty : tryGroup ≠ []
  room : st.set.length = CascadeTry.maxGroup
  count : st.setCount ≤ CascadeTry.maxGroup
  valid : ∀ j, st.valid j = 0

def Tries.Inside (t : Tries) : Prop := ∀ n, rounds (tryRound t.world t.tryGroup) n
  (⟨0, 0, 0, 0⟩, { t.st with preTryNum := 0, okflag := false }) ≠ none

def Tries.Room (t : Tries) : Prop := t.st.setCount + (outcomes t.world t.st.batches.length t.st.trial
  (fittingTried t.world t.st t.tryGroup)).count true ≤ CascadeTry.maxGroup

theorem tryInside_iff (t : Tries) : t.Inside ↔ t.Room := by
  obtain ⟨large, hsplit, hover⟩ := fitting_split t.tryGroup
  have hround {n : Nat} (hn : n ≤ (fittingTried t.world t.st t.tryGroup).length) :=
    fitting_rounds t.load t.room t.count t.valid t.nonempty hsplit hover rfl hn rfl
  constructor
  · intro h
    by_contra hroom
    have hstop := (hround (Nat.le_refl _)).2
    rw [List.take_length] at hstop
    exact h _ (hstop hroom)
  · intro hroom n
    rcases Nat.le_total n (fittingTried t.world t.st t.tryGroup).length with hn | hn
    · have hcount : (outcomes t.world t.st.batches.length t.st.trial
          ((fittingTried t.world t.st t.tryGroup).take n)).count true ≤
          (outcomes t.world t.st.batches.length t.st.trial (fittingTried t.world t.st t.tryGroup)).count true := by
        conv_rhs => rw [← List.take_append_drop n (fittingTried t.world t.st t.tryGroup), outcomes_append,
          List.count_append]
        exact Nat.le_add_right _ _
      rw [Tries.Room] at hroom
      obtain ⟨st', j, -, -, hst'⟩ := (hround hn).1 (by omega)
      rw [hst']
      exact Option.some_ne_none _
    · obtain ⟨m, rfl⟩ := Nat.exists_eq_add_of_le hn
      obtain ⟨st1, -, hleft | ⟨c, st2, hst2, -⟩⟩ :=
        fitting_stays t.load t.room t.count t.valid t.nonempty rfl hroom m
      · rw [hleft]
        exact Option.some_ne_none _
      · rw [hst2]
        exact Option.some_ne_none _

end

def farGroup : SgroupInfo :=
  { SgroupInfo.zero with linkarraysSize := 1, linkarrays := some [{ SlinkInfo.zero with fiber := 16 }] }

def farTables : Tables where
  st :=
    { set := List.replicate OldGroups.maxGroup .zero
      setCount := 0
      old := [farGroup]
      deal := List.replicate OldGroups.maxGroup .zero
      dealCount := 0
      dealSize := 0
      new := List.replicate OldGroups.maxGroup .zero
      newCount := 0 }
  rooms := ⟨List.length_replicate, List.length_replicate, List.length_replicate⟩
  counts := ⟨Nat.zero_le _, Nat.zero_le _, Nat.zero_le _, Nat.zero_le _⟩
  learned := nofun
  old := by
    intro g hg
    obtain rfl := List.mem_singleton.mp hg
    refine ⟨by decide, fun x hx => ?_⟩
    obtain rfl := List.mem_singleton.mp hx
    exact ⟨_, rfl⟩
  kept := nofun

end OiAmc.CascadeTables
