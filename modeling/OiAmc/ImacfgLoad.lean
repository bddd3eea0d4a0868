import OiAmc.ImacfgSections

/-! Loading a section is a function of what it says. -/

namespace OiAmc.Imacfg

open Cconfig Function Numerals

variable {h : CConfig} {i : Nat}

instance (room : Nat) (id : String) : Decidable (Short h i room id) :=
  inferInstanceAs (Decidable (∀ v ∈ value h i id, v.length < room))

theorem ite_bind {α β : Type} (c : Prop) [Decidable c] (a : α) (f : α → Except Stop β) :
    ((if c then Except.ok a else .error .outside) >>= f) =
      if c then f a else .error .outside := by
  split <;> rfl

theorem cfgGetValue_lines (id : String) (k : Nat) :
    cfgGetValue h "IMA Group".toList (some id.toList) (k + 1) (i + 1) = (lines h i id)[k]? := by
  rw [cfgGetValue_eq, lines, tokensOf]
  cases (h.named "IMA Group".toList)[i]? with
  | none => rfl
  | some tokens => rfl

theorem valueInto_line {room k : Nat} {id : String} {v : Text} (hv : (lines h i id)[k]? = some v) :
    valueInto h room id.toList (k + 1) (i + 1) =
      if v.length < room then .ok (some v) else .error .outside := by
  rw [valueInto, cfgGetValue_lines, hv]

theorem valueInto_first (room : Nat) (id : String) :
    valueInto h room id.toList 1 (i + 1) =
      if Short h i room id then .ok (value h i id) else .error .outside := by
  have hl := cfgGetValue_lines (h := h) (i := i) id 0
  rw [← List.head?_eq_getElem?, Nat.zero_add] at hl
  rw [valueInto, hl, value]
  cases hv : (lines h i id).head? with
  | none => rw [if_pos (by simp [Short, value, hv])]
  | some v => simp [Short, value, hv]

section Links

variable {α : Type} {xs : List α} {a : Nat → α} {x : α} {k : Nat}

theorem filled_take_succ {β : Type} {ys : List β} {y : β} (f : β → α) (hy : ys[k]? = some y) :
    update (filled ((ys.take k).map f) a) k (f y) = filled ((ys.take (k + 1)).map f) a := by
  funext j
  rcases eq_or_ne j k with rfl | hj
  · rw [update_self, filled, List.getElem?_map, List.getElem?_take_of_lt (by omega), hy]
    rfl
  · rw [update_of_ne hj, filled, filled, List.getElem?_map, List.getElem?_map, List.getElem?_take,
      List.getElem?_take]
    by_cases hlt : j < k
    · rw [if_pos hlt, if_pos (by omega)]
    · rw [if_neg hlt, if_neg (by omega)]

theorem take_succ_of_none (hx : xs[k]? = none) : xs.take (k + 1) = xs.take k := by
  rw [List.getElem?_eq_none_iff] at hx
  rw [List.take_of_length_le hx, List.take_of_length_le (by omega)]

theorem filed_cons {phy : Int} (hphy : 0 ≤ phy) (numbers : List Int) (v : UInt8)
    (links : Nat → UInt8) :
    update (filed numbers v links) phy.toNat v = filed (phy :: numbers) v links := by
  funext x
  rcases eq_or_ne x phy.toNat with rfl | hx
  · rw [update_self, filed, if_pos (by simp [Int.toNat_of_nonneg hphy])]
  · have hne : (x : Int) ≠ phy := by omega
    simp [update_of_ne hx, filed, List.mem_cons, hne]

theorem filed_congr (numbers numbers' : List Int) (hn : ∀ x, x ∈ numbers ↔ x ∈ numbers')
    (v : UInt8) : filed numbers v = filed numbers' v := by
  funext links x
  rw [filed, filed, if_congr (hn _) rfl rfl]

@[simp] theorem filled_nil : filled [] a = a := rfl

@[simp] theorem filed_nil (v : UInt8) (links : Nat → UInt8) : filed [] v links = links := by
  funext x
  rw [filed, if_neg List.not_mem_nil]

@[simp] theorem withLinks_nil (g : CfgImaGrp) : withLinks [] [] g = g := rfl

end Links

def linksTo (h : CConfig) (i : Nat) (cfg : ImaCfg) (k m : Nat) : ImaCfg :=
  { cfg with
    grpCfg := update cfg.grpCfg i
      (withLinks ((rxRead h i).take k) ((txRead h i).take m) (cfg.grpCfg i))
    linkInGrp := filed (((rxRead h i).take k).map rxNumber ++ ((txRead h i).take m).map txNumber)
      (.ofNat (i + 1)) cfg.linkInGrp }

theorem linksTo_zero (cfg : ImaCfg) : linksTo h i cfg 0 0 = cfg := by
  simp [linksTo, update_eq_self]

theorem modifyGrp_eq (hi : i < slotRoom) (cfg : ImaCfg) (f : CfgImaGrp → CfgImaGrp) :
    cfg.modifyGrp i f = .ok { cfg with grpCfg := update cfg.grpCfg i (f (cfg.grpCfg i)) } :=
  if_pos hi

theorem loadRxLink_eq {k m : Nat} {v : Text} (hi : i < slotRoom)
    (hv : (rxRead h i)[k]? = some v) (cfg : ImaCfg) :
    loadRxLink h i k (linksTo h i cfg k m) =
      if v.length < 128 ∧ 0 ≤ rxNumber v ∧ rxNumber v < MAX_LNK_NUM then
        .ok (linksTo h i cfg (k + 1) m)
      else .error .outside := by
  have hline : (lines h i "RxLink")[k]? = some v := by
    rw [rxRead, List.getElem?_take] at hv
    split_ifs at hv
    exact hv
  rw [loadRxLink, valueInto_line hline, ite_bind]
  by_cases hlen : v.length < 128
  · rw [if_pos hlen]
    dsimp only
    rw [modifyGrp_eq hi]
    by_cases hphy : 0 ≤ rxNumber v ∧ rxNumber v < MAX_LNK_NUM
    · rw [if_pos ⟨hlen, hphy⟩]
      refine (if_pos hphy).trans (congrArg Except.ok ?_)
      have hfiled := filed_cons hphy.1 (((rxRead h i).take k).map rxNumber ++
        ((txRead h i).take m).map txNumber) (.ofNat (i + 1)) cfg.linkInGrp
      have hcongr := filed_congr (rxNumber v :: (((rxRead h i).take k).map rxNumber ++
        ((txRead h i).take m).map txNumber)) (((rxRead h i).take (k + 1)).map rxNumber ++
        ((txRead h i).take m).map txNumber)
        (by intro x; simp [List.take_add_one, hv]; tauto) (.ofNat (i + 1))
      simp only [linksTo, update_self, update_idem, withLinks, ← filled_take_succ _ hv, ← hcongr,
        ← hfiled]
      rfl
    · rw [if_neg fun h => hphy h.2]
      exact if_neg hphy
  · rw [if_neg hlen, if_neg fun h => hlen h.1]

theorem loadTxLink_eq {k m : Nat} {v : Text} {r : Int × Int × Int} (hi : i < slotRoom)
    (hv : (txRead h i)[m]? = some v) (hr : scanTxLink v = some r) (cfg : ImaCfg) :
    loadTxLink h i m (linksTo h i cfg k m) =
      if v.length < 128 ∧ 0 ≤ txNumber v ∧ txNumber v < MAX_LNK_NUM then
        .ok (linksTo h i cfg k (m + 1), true)
      else .error .outside := by
  have hline : (lines h i "TxLink")[m]? = some v := by
    rw [txRead, txSeen, List.getElem?_take, List.getElem?_take] at hv
    split_ifs at hv
    exact hv
  obtain ⟨lid, offset, phyLink⟩ := r
  have hentry : txEntry v = (lid, offset, phyLink) := by rw [txEntry, hr, Option.getD_some]
  have hnumber : getNphylink phyLink = txNumber v := by rw [txNumber, hentry]
  have hlink : (⟨.ofInt lid, .ofInt offset, .ofInt (txNumber v)⟩ : CfgImaTxLink) = txLinkOf v := by
    rw [txLinkOf, hentry]
  rw [loadTxLink, valueInto_line hline, ite_bind]
  by_cases hlen : v.length < 128
  · rw [if_pos hlen]
    dsimp only
    rw [hr]
    dsimp only
    rw [hnumber, hlink, modifyGrp_eq hi]
    change (ImaCfg.setLinkInGrp _ _ _ >>= fun cfg => .ok (cfg, true)) = _
    rw [ImaCfg.setLinkInGrp]
    by_cases hphy : 0 ≤ txNumber v ∧ txNumber v < MAX_LNK_NUM
    · rw [if_pos hphy, if_pos ⟨hlen, hphy⟩]
      refine congrArg (fun cfg => Except.ok (cfg, true)) ?_
      have hfiled := filed_cons hphy.1 (((rxRead h i).take k).map rxNumber ++
        ((txRead h i).take m).map txNumber) (.ofNat (i + 1)) cfg.linkInGrp
      have hcongr := filed_congr (txNumber v :: (((rxRead h i).take k).map rxNumber ++
        ((txRead h i).take m).map txNumber)) (((rxRead h i).take k).map rxNumber ++
        ((txRead h i).take (m + 1)).map txNumber)
        (by intro x; simp [List.take_add_one, hv]; tauto) (.ofNat (i + 1))
      simp only [linksTo, update_self, update_idem, withLinks, ← filled_take_succ _ hv, ← hcongr,
        ← hfiled]
    · rw [if_neg hphy, if_neg fun h => hphy h.2]
      rfl
  · rw [if_neg hlen, if_neg fun h => hlen h.1]

theorem loadTxLink_none {m : Nat} {v : Text} (hv : (lines h i "TxLink")[m]? = some v)
    (hr : scanTxLink v = none) (cfg : ImaCfg) :
    loadTxLink h i m cfg = if v.length < 128 then .ok (cfg, false) else .error .outside := by
  rw [loadTxLink, valueInto_line hv, ite_bind]
  dsimp only
  rw [hr]
  rfl

theorem rounds_le (h : CConfig) (i : Nat) : rounds h i ≤ IMA_MAX_LINKS_OF_IMA_GRP := by
  rw [rounds]
  split <;> omega

theorem rxRead_length_le (h : CConfig) (i : Nat) : (rxRead h i).length ≤ rounds h i :=
  List.length_take_le _ _

theorem txSeen_length_le (h : CConfig) (i : Nat) : (txSeen h i).length ≤ rounds h i :=
  List.length_take_le _ _

theorem txRead_length_le (h : CConfig) (i : Nat) : (txRead h i).length ≤ (txSeen h i).length :=
  List.length_take_le' _ _

theorem rxRead_getElem? {k : Nat} (hk : k < rounds h i) :
    (rxRead h i)[k]? = (lines h i "RxLink")[k]? := List.getElem?_take_of_lt hk

theorem txSeen_getElem? {k : Nat} (hk : k < rounds h i) :
    (txSeen h i)[k]? = (lines h i "TxLink")[k]? := List.getElem?_take_of_lt hk

theorem scan_of_lt {k : Nat} {v : Text} (hk : k < txGood h i)
    (hv : (lines h i "TxLink")[k]? = some v) : ∃ r, scanTxLink v = some r := by
  have hlen := (List.getElem?_eq_some_iff.mp hv).1
  have hn := List.not_of_lt_findIdx hk
  rw [(List.getElem?_eq_some_iff.mp hv).2] at hn
  exact Option.isSome_iff_exists.mp (by simpa using hn)

theorem scan_of_eq {v : Text} (hv : (lines h i "TxLink")[txGood h i]? = some v) :
    scanTxLink v = none := by
  have hlen := (List.getElem?_eq_some_iff.mp hv).1
  have hn : (scanTxLink (lines h i "TxLink")[txGood h i]).isNone :=
    List.findIdx_getElem (w := hlen)
  rw [(List.getElem?_eq_some_iff.mp hv).2] at hn
  simpa using hn

theorem lt_txGood_or {k : Nat} (hk : k < rounds h i) :
    k < txGood h i ∨ k = txGood h i ∧ rounds h i = k + 1 ∨ (lines h i "TxLink").length ≤ k := by
  have hle : (lines h i "TxLink").findIdx (fun v => (scanTxLink v).isNone) ≤
    (lines h i "TxLink").length := List.findIdx_le_length
  rw [rounds] at hk ⊢
  rw [txGood] at *
  split_ifs at hk ⊢ <;> omega

/-- A round goes on with another one. -/
def again (h : CConfig) (i k : Nat) : Bool :=
  !(txGood h i ≤ k && k < (lines h i "TxLink").length) &&
    !((lines h i "RxLink").length ≤ k && (lines h i "TxLink").length ≤ k)

instance (v : Text) : Decidable (RxInside v) :=
  inferInstanceAs (Decidable (_ ∧ _ ∧ _))

instance (v : Text) : Decidable (TxInside v) :=
  inferInstanceAs (Decidable (_ ∧ (_ → _ ∧ _)))

def RoundInside (h : CConfig) (i k : Nat) : Prop :=
  (∀ v ∈ (rxRead h i)[k]?, RxInside v) ∧ ∀ v ∈ (txSeen h i)[k]?, TxInside v

instance (h : CConfig) (i k : Nat) : Decidable (RoundInside h i k) :=
  inferInstanceAs (Decidable (_ ∧ _))

theorem linksTo_none {cfg : ImaCfg} {k m : Nat} (hk : (rxRead h i)[k]? = none) :
    linksTo h i cfg (k + 1) m = linksTo h i cfg k m := by
  rw [linksTo, linksTo, take_succ_of_none hk]

theorem linksTo_none' {cfg : ImaCfg} {k m : Nat} (hm : (txRead h i)[m]? = none) :
    linksTo h i cfg k (m + 1) = linksTo h i cfg k m := by
  rw [linksTo, linksTo, take_succ_of_none hm]

theorem loadRxLink_round {k m : Nat} (hi : i < slotRoom) (hk : k < rounds h i) (cfg : ImaCfg) :
    (if (k : Int) < (lines h i "RxLink").length then loadRxLink h i k (linksTo h i cfg k m)
      else pure (linksTo h i cfg k m)) =
    if ∀ v ∈ (rxRead h i)[k]?, RxInside v then .ok (linksTo h i cfg (k + 1) m)
      else .error .outside := by
  cases hv : (rxRead h i)[k]? with
  | none =>
      rw [linksTo_none hv]
      rw [rxRead_getElem? hk, List.getElem?_eq_none_iff] at hv
      refine (if_neg (by omega)).trans ?_
      rw [if_pos (by simp)]
      rfl
  | some v =>
      have hlt : k < (lines h i "RxLink").length := by
        rw [rxRead_getElem? hk] at hv
        exact (List.getElem?_eq_some_iff.mp hv).1
      rw [if_pos (by omega), loadRxLink_eq hi hv]
      exact if_congr (by simp [RxInside, Linked]) rfl rfl

theorem loadTxLink_round {k m : Nat} (hi : i < slotRoom) (hm : m < rounds h i) (cfg : ImaCfg) :
    (if (m : Int) < (lines h i "TxLink").length then loadTxLink h i m (linksTo h i cfg k m)
      else pure (linksTo h i cfg k m, true)) =
    if ∀ v ∈ (txSeen h i)[m]?, TxInside v then
      .ok (linksTo h i cfg k (m + 1), !(txGood h i ≤ m && m < (lines h i "TxLink").length))
      else .error .outside := by
  rw [txSeen_getElem? hm]
  cases hv : (lines h i "TxLink")[m]? with
  | none =>
      have hnone : (txRead h i)[m]? = none := by
        rw [txRead, List.getElem?_take, txSeen_getElem? hm, hv, ite_self]
      rw [List.getElem?_eq_none_iff] at hv
      rw [linksTo_none' hnone]
      refine (if_neg (by omega)).trans ?_
      rw [if_pos (by simp)]
      simp [show ¬m < (lines h i "TxLink").length by omega]
      rfl
  | some v =>
      have hlt := (List.getElem?_eq_some_iff.mp hv).1
      rw [if_pos (by omega)]
      obtain hg | ⟨hg, -⟩ | hg := lt_txGood_or hm
      · obtain ⟨r, hr⟩ := scan_of_lt hg hv
        have hread : (txRead h i)[m]? = some v := by
          rw [txRead, List.getElem?_take, if_pos hg, txSeen_getElem? hm, hv]
        rw [loadTxLink_eq hi hread hr]
        simp [TxInside, Linked, hr, show ¬txGood h i ≤ m by omega]
      · have hr := scan_of_eq (hg ▸ hv)
        have hread : (txRead h i)[m]? = none := by
          rw [txRead, List.getElem?_take, if_neg (by omega)]
        rw [loadTxLink_none hv hr, linksTo_none' hread]
        simp [TxInside, hr, hlt, ← hg]
      · omega

theorem loadLink_eq {k : Nat} (hi : i < slotRoom) (hk : k < rounds h i) (cfg : ImaCfg) :
    loadLink h i (lines h i "RxLink").length (lines h i "TxLink").length k
        (linksTo h i cfg k k) =
      if RoundInside h i k then .ok (linksTo h i cfg (k + 1) (k + 1), again h i k)
      else .error .outside := by
  rw [loadLink, loadRxLink_round hi hk, ite_bind]
  dsimp only
  rw [loadTxLink_round hi hk, ite_bind]
  by_cases hrx : ∀ v ∈ (rxRead h i)[k]?, RxInside v
  · rw [if_pos hrx]
    refine if_congr ⟨fun htx => ⟨hrx, htx⟩, And.right⟩ ?_ rfl
    simp [again]
    rfl
  · rw [if_neg hrx, if_neg fun h => hrx h.1]

theorem linksTo_end {cfg : ImaCfg} {k : Nat} (hrx : (rxRead h i).length ≤ k)
    (htx : (txRead h i).length ≤ k) :
    linksTo h i cfg k k = linksTo h i cfg IMA_MAX_LINKS_OF_IMA_GRP IMA_MAX_LINKS_OF_IMA_GRP := by
  have hle := rounds_le h i
  have hrx' := rxRead_length_le h i
  have htx' := (txRead_length_le h i).trans (txSeen_length_le h i)
  rw [linksTo, linksTo, List.take_of_length_le hrx, List.take_of_length_le htx,
    List.take_of_length_le (by omega), List.take_of_length_le (by omega)]

theorem again_cases {k : Nat} (hk : k < rounds h i) :
    (again h i k = true ∧
        (k + 1 < rounds h i ∨ k + 1 = IMA_MAX_LINKS_OF_IMA_GRP ∧ rounds h i = k + 1)) ∨
      (again h i k = false ∧ (rxRead h i).length ≤ k + 1 ∧ (txSeen h i).length ≤ k + 1) := by
  have hle := rounds_le h i
  have hrx := rxRead_length_le h i
  have htx := txSeen_length_le h i
  have hrx' : (rxRead h i).length ≤ (lines h i "RxLink").length := List.length_take_le' _ _
  have htx' : (txSeen h i).length ≤ (lines h i "TxLink").length := List.length_take_le' _ _
  have hrounds : rounds h i = if txGood h i < (lines h i "TxLink").length then
    min (txGood h i + 1) IMA_MAX_LINKS_OF_IMA_GRP else IMA_MAX_LINKS_OF_IMA_GRP := rfl
  cases ha : again h i k
  · right
    rw [again, Bool.and_eq_false_iff] at ha
    simp only [Bool.not_eq_false', Bool.and_eq_true, decide_eq_true_eq] at ha
    refine ⟨rfl, ?_⟩
    split at hrounds <;> omega
  · left
    rw [again, Bool.and_eq_true] at ha
    simp only [Bool.not_eq_true', Bool.and_eq_false_iff, decide_eq_false_iff_not] at ha
    refine ⟨rfl, ?_⟩
    split at hrounds <;> omega

theorem roundInside_of_le {k : Nat} (hk : rounds h i ≤ k) : RoundInside h i k := by
  have hrx := rxRead_length_le h i
  have htx := txSeen_length_le h i
  rw [RoundInside, List.getElem?_eq_none (by omega), List.getElem?_eq_none (by omega)]
  simp

theorem loadLinks_eq {k n : Nat} (hi : i < slotRoom) (hk : k < rounds h i ∨ n = 0)
    (hn : k + n = IMA_MAX_LINKS_OF_IMA_GRP) (cfg : ImaCfg) :
    ((∀ m, k ≤ m → RoundInside h i m) →
      loadLinks h i (lines h i "RxLink").length (lines h i "TxLink").length (List.range' k n)
        (linksTo h i cfg k k) =
      .ok (linksTo h i cfg IMA_MAX_LINKS_OF_IMA_GRP IMA_MAX_LINKS_OF_IMA_GRP)) ∧
    ((∃ m, k ≤ m ∧ ¬RoundInside h i m) →
      loadLinks h i (lines h i "RxLink").length (lines h i "TxLink").length (List.range' k n)
        (linksTo h i cfg k k) = .error .outside) := by
  induction n generalizing k with
  | zero =>
      refine ⟨fun _ => by rw [← hn]; rfl, ?_⟩
      rintro ⟨m, hm, hnot⟩
      exact absurd (roundInside_of_le ((rounds_le h i).trans (by omega))) hnot
  | succ n ih =>
      have hk : k < rounds h i := by omega
      rw [List.range'_succ, loadLinks, loadLink_eq hi hk, ite_bind]
      by_cases hin : RoundInside h i k
      · rw [if_pos hin]
        dsimp only
        obtain ⟨ha, hnext⟩ | ⟨ha, hrx, htx⟩ := again_cases hk
        · rw [ha, if_pos rfl]
          obtain ⟨h1, h2⟩ := ih (k := k + 1) (by omega) (by omega)
          refine ⟨fun hall => h1 fun m hm => hall m (by omega), ?_⟩
          rintro ⟨m, hm, hnot⟩
          refine h2 ⟨m, ?_, hnot⟩
          rcases Nat.eq_or_lt_of_le hm with rfl | hlt
          · exact absurd hin hnot
          · exact hlt
        · rw [ha, if_neg Bool.false_ne_true]
          refine ⟨fun _ => ?_, ?_⟩
          · rw [linksTo_end hrx ((txRead_length_le h i).trans htx)]
            rfl
          · rintro ⟨m, hm, hnot⟩
            rcases Nat.eq_or_lt_of_le hm with rfl | hlt
            · exact absurd hin hnot
            · refine absurd ?_ hnot
              rw [RoundInside, List.getElem?_eq_none (by omega), List.getElem?_eq_none (by omega)]
              simp
      · rw [if_neg hin]
        exact ⟨fun hall => absurd (hall k le_rfl) hin, fun _ => rfl⟩

theorem rounds_pos (h : CConfig) (i : Nat) : 0 < rounds h i := by
  rw [rounds, IMA_MAX_LINKS_OF_IMA_GRP]
  split <;> omega

theorem linksInside_iff : LinksInside h i ↔ ∀ m, 0 ≤ m → RoundInside h i m := by
  constructor
  · rintro ⟨hrx, htx⟩ m -
    exact ⟨fun v hv => hrx v (List.mem_of_getElem? hv), fun v hv => htx v (List.mem_of_getElem? hv)⟩
  · intro hall
    refine ⟨fun v hv => ?_, fun v hv => ?_⟩
    · obtain ⟨m, hm⟩ := List.mem_iff_getElem?.mp hv
      exact (hall m (Nat.zero_le m)).1 v hm
    · obtain ⟨m, hm⟩ := List.mem_iff_getElem?.mp hv
      exact (hall m (Nat.zero_le m)).2 v hm

theorem loadLinks_all (hi : i < slotRoom) (cfg : ImaCfg) :
    (LinksInside h i →
      loadLinks h i (lines h i "RxLink").length (lines h i "TxLink").length
        (List.range IMA_MAX_LINKS_OF_IMA_GRP) cfg =
      .ok (linksTo h i cfg IMA_MAX_LINKS_OF_IMA_GRP IMA_MAX_LINKS_OF_IMA_GRP)) ∧
    (¬LinksInside h i →
      loadLinks h i (lines h i "RxLink").length (lines h i "TxLink").length
        (List.range IMA_MAX_LINKS_OF_IMA_GRP) cfg = .error .outside) := by
  have hrun := loadLinks_eq (h := h) hi (.inl (rounds_pos h i)) (Nat.zero_add _) cfg
  rw [linksTo_zero, ← List.range_eq_range', ← linksInside_iff] at hrun
  refine ⟨hrun.1, fun hnot => hrun.2 ?_⟩
  rw [linksInside_iff] at hnot
  push Not at hnot
  exact hnot

theorem getValue_eq (id : String) (defaultValue : Int) :
    getValue h id.toList i defaultValue =
      if Short h i 256 id then .ok (intOf defaultValue (value h i id)) else .error .outside := by
  rw [getValue, valueInto_first, ite_bind]
  rfl

theorem getClockValue_eq : getClockValue h i =
    if Short h i 128 "Clock Mode" then .ok (clockOf (value h i "Clock Mode"))
    else .error .outside := by
  rw [getClockValue, valueInto_first, ite_bind]
  rfl

theorem getVersionValue_eq (id : VersionId) : getVersionValue h id i =
    if Short h i 128 "Version" then .ok (versionOf id (value h i "Version"))
    else .error .outside := by
  rw [getVersionValue, valueInto_first, ite_bind]
  rfl

theorem getTxMValue_eq : getTxMValue h i =
    if Short h i 256 "Tx M value" then .ok (txMOf (value h i "Tx M value"))
    else .error .outside := by
  rw [getTxMValue, valueInto_first, ite_bind]
  rfl

theorem getEn_eq (id : String) : getEn h id.toList i =
    if Short h i 128 id then .ok (enOf (value h i id)) else .error .outside := by
  rw [getEn, valueInto_first, ite_bind]
  rfl

theorem loadImaModeCfg_eq : loadImaModeCfg h i =
    if Short h i 128 "mode" then .ok (mode h i) else .error .outside := by
  rw [loadImaModeCfg, valueInto_first, ite_bind]
  rfl

/-- The count of a name in a section is the number of its values. -/
def Counts (h : CConfig) (i : Nat) : Prop :=
  ∀ id : String, cfgGetCount h "IMA Group".toList (some id.toList) (i + 1) = (lines h i id).length

theorem loadImaGrpLinksCfg_eq (hi : i < slotRoom) (hcounts : Counts h i) (cfg : ImaCfg)
    (hrx : (cfg.grpCfg i).numRxLinks = numRxLinks h i)
    (htx : (cfg.grpCfg i).numTxLinks = numTxLinks h i) :
    (¬Counted h i → loadImaGrpLinksCfg h i cfg = .error .failed) ∧
    (Counted h i → ¬LinksInside h i → loadImaGrpLinksCfg h i cfg = .error .outside) ∧
    (Counted h i → LinksInside h i → loadImaGrpLinksCfg h i cfg =
      .ok (linksTo h i cfg IMA_MAX_LINKS_OF_IMA_GRP IMA_MAX_LINKS_OF_IMA_GRP)) := by
  rw [loadImaGrpLinksCfg, hrx, htx, hcounts, hcounts]
  obtain ⟨hin, hout⟩ := loadLinks_all (h := h) hi cfg
  refine ⟨fun hnot => if_pos ?_, fun hyes hlinks => ?_, fun hyes hlinks => ?_⟩
  · rw [Counted] at hnot
    omega
  · obtain ⟨h1, h2, h3, h4⟩ := hyes
    rw [if_neg (by omega)]
    exact hout hlinks
  · obtain ⟨h1, h2, h3, h4⟩ := hyes
    rw [if_neg (by omega)]
    exact hin hlinks

theorem outside_of_not {c rest : Prop} [Decidable c] {α : Type} {f : Except Stop α}
    (hf : ¬rest → f = .error .outside) (hnot : ¬(c ∧ rest)) :
    (if c then f else .error .outside) = .error .outside := by
  split
  · next hc => exact hf fun hrest => hnot ⟨hc, hrest⟩
  · rfl

theorem ite_outside {c : Prop} [Decidable c] {α : Type} {f : Except Stop α}
    (hf : f = .error .outside) : (if c then f else .error .outside) = .error .outside := by
  rw [hf, ite_self]

theorem loadGroupFields_eq (g : CfgImaGrp) :
    (¬FieldsShort h i → loadGroupFields h i g = .error .outside) ∧
    (FieldsShort h i → loadGroupFields h i g = .ok (withFields h i g)) := by
  simp only [loadGroupFields, getValue_eq, getClockValue_eq, getVersionValue_eq, getTxMValue_eq,
    getEn_eq, ite_bind]
  constructor
  · intro hnot
    iterate 3 refine outside_of_not (fun hnot => ?_) hnot
    -- The version is read twice.
    refine ite_outside ?_
    iterate 12 refine outside_of_not (fun hnot => ?_) hnot
    exact if_neg hnot
  · rintro ⟨h1, h2, h3, h4, h5, h6, h7, h8, h9, h10, h11, h12, h13, h14, h15, h16⟩
    rw [if_pos h1, if_pos h2, if_pos h3, if_pos h3, if_pos h4, if_pos h5, if_pos h6, if_pos h7,
      if_pos h8, if_pos h9, if_pos h10, if_pos h11, if_pos h12, if_pos h13, if_pos h14, if_pos h15,
      if_pos h16]
    rfl

/-- A configuration with the numbers of links of a group. -/
def counted (h : CConfig) (i : Nat) (cfg : ImaCfg) : ImaCfg :=
  { cfg with grpCfg := update cfg.grpCfg i (withCounts h i (cfg.grpCfg i)) }

theorem counted_grpCfg (cfg : ImaCfg) :
    (counted h i cfg).grpCfg i = withCounts h i (cfg.grpCfg i) := update_self _ _ _

theorem loadImaGroupCfg_start (hi : i < slotRoom) (cfg : ImaCfg) : loadImaGroupCfg h cfg i =
    if Short h i 256 "Rx Links Num" then
      if Short h i 256 "Tx Links Num" then
        loadImaGrpLinksCfg h i (counted h i cfg) >>= fun cfg =>
          loadGroupFields h i (cfg.grpCfg i) >>= fun g => cfg.modifyGrp i fun _ => g
      else .error .outside
    else .error .outside := by
  rw [loadImaGroupCfg, getValue_eq, ite_bind, getValue_eq, ite_bind]
  simp only [modifyGrp_eq hi]
  rfl

/-- Loading a group comes to nothing when it says that it has other links than it lists,
leaves an array when something does not fit, and otherwise fills its slot. -/
theorem loadImaGroupCfg_eq (hi : i < slotRoom) (hcounts : Counts h i) (cfg : ImaCfg) :
    (¬CountsShort h i → loadImaGroupCfg h cfg i = .error .outside) ∧
    (CountsShort h i → ¬Counted h i → loadImaGroupCfg h cfg i = .error .failed) ∧
    (CountsShort h i → Counted h i → ¬(LinksInside h i ∧ FieldsShort h i) →
      loadImaGroupCfg h cfg i = .error .outside) ∧
    (CountsShort h i → Counted h i → LinksInside h i ∧ FieldsShort h i →
      loadImaGroupCfg h cfg i = .ok (withGroup h i cfg)) := by
  obtain ⟨hlinks1, hlinks2, hlinks3⟩ := loadImaGrpLinksCfg_eq hi hcounts (counted h i cfg)
    (by rw [counted_grpCfg, withCounts]) (by rw [counted_grpCfg, withCounts])
  rw [loadImaGroupCfg_start hi]
  refine ⟨fun hs => ?_, fun hs hc => ?_, fun hs hc hnot => ?_, fun hs hc hin => ?_⟩
  · exact outside_of_not (fun hs => if_neg hs) hs
  · rw [if_pos hs.1, if_pos hs.2, hlinks1 hc]
    rfl
  · rw [if_pos hs.1, if_pos hs.2]
    by_cases hl : LinksInside h i
    · rw [hlinks3 hc hl]
      change (loadGroupFields h i _ >>= _) = _
      rw [(loadGroupFields_eq _).1 fun hf => hnot ⟨hl, hf⟩]
      rfl
    · rw [hlinks2 hc hl]
      rfl
  · rw [if_pos hs.1, if_pos hs.2, hlinks3 hc hin.1]
    change (loadGroupFields h i _ >>= _) = _
    rw [(loadGroupFields_eq _).2 hin.2]
    change ImaCfg.modifyGrp _ _ _ = _
    rw [modifyGrp_eq hi]
    have hrx := (rxRead_length_le h i).trans (rounds_le h i)
    have htx := ((txRead_length_le h i).trans (txSeen_length_le h i)).trans (rounds_le h i)
    simp only [linksTo, List.take_of_length_le hrx, List.take_of_length_le htx, counted,
      update_self, update_idem, withGroup, groupOf, groupNumbers]

theorem withTcLinks_nil (slot : Nat) (cfg : ImaCfg) : withTcLinks slot [] cfg = cfg := by
  have hmode : (fun s => if slot ≤ s ∧ s < slot + 0 then (1 : UInt8) else cfg.grpMode s) =
      cfg.grpMode := by
    funext s
    rw [if_neg (by omega)]
  have hgrp : (fun s => if slot ≤ s then cfg.grpCfg s else cfg.grpCfg s) = cfg.grpCfg := by
    funext s
    rw [ite_self]
  exact ImaCfg.ext rfl rfl (UInt8.add_zero _) (filed_nil LINK_IN_TC _) hmode rfl hgrp

theorem withTcLinks_cons (slot : Nat) (phy : Int) (numbers : List Int) (cfg : ImaCfg) :
    withTcLinks (slot + 1) numbers (withTcLinks slot [phy] cfg) =
      withTcLinks slot (phy :: numbers) cfg := by
  have hnum : cfg.tcNum + .ofNat 1 + .ofNat numbers.length =
      cfg.tcNum + .ofNat (numbers.length + 1) := by
    rw [UInt8.ofNat_add, UInt8.add_assoc, UInt8.add_comm (.ofNat 1)]
  have hfiled : filed numbers LINK_IN_TC (filed [phy] LINK_IN_TC cfg.linkInGrp) =
      filed (phy :: numbers) LINK_IN_TC cfg.linkInGrp := by
    funext x
    simp only [filed, List.mem_cons, List.not_mem_nil, or_false]
    split_ifs <;> tauto
  refine ImaCfg.ext rfl rfl hnum hfiled ?_ rfl ?_
  · funext s
    simp only [withTcLinks, List.length_cons, List.length_nil]
    split_ifs <;> first | rfl | omega
  · funext s
    simp only [withTcLinks]
    rcases Nat.lt_trichotomy s slot with hs | rfl | hs
    · rw [if_neg (by omega), if_neg (by omega), if_neg (by omega)]
    · rw [if_neg (by omega), if_pos le_rfl, if_pos le_rfl, Nat.sub_self]
      rfl
    · obtain ⟨d, rfl⟩ := Nat.exists_eq_add_of_lt hs
      rw [if_pos (by omega), if_pos (by omega), if_pos (by omega),
        show slot + d + 1 - (slot + 1) = d by omega, show slot + d + 1 - slot = d + 1 by omega]
      rfl

theorem loadTcLink_eq (phy : Int) (slot : Nat) (cfg : ImaCfg) : loadTcLink phy slot cfg =
    if slot < slotRoom ∧ 0 ≤ phy ∧ phy < MAX_LNK_NUM then .ok (withTcLinks slot [phy] cfg)
    else .error .outside := by
  by_cases hslot : slot < slotRoom
  · rw [loadTcLink, modifyGrp_eq hslot]
    change (ImaCfg.setLinkInGrp _ _ _ >>= _) = _
    rw [ImaCfg.setLinkInGrp]
    by_cases hphy : 0 ≤ phy ∧ phy < MAX_LNK_NUM
    · rw [if_pos hphy, if_pos ⟨hslot, hphy⟩]
      change (ImaCfg.setMode _ _ _ >>= _) = _
      rw [ImaCfg.setMode, if_pos hslot]
      have hlink := filed_cons hphy.1 [] LINK_IN_TC cfg.linkInGrp
      rw [filed_nil] at hlink
      refine congrArg Except.ok (ImaCfg.ext rfl rfl rfl hlink ?_ rfl ?_)
      · funext s
        simp only [withTcLinks, List.length_singleton, update_apply]
        exact if_congr (by omega) rfl rfl
      · funext s
        simp only [withTcLinks, update_apply]
        rcases Nat.lt_trichotomy s slot with hs | rfl | hs
        · rw [if_neg (by omega), if_neg (by omega)]
        · rw [if_pos rfl, if_pos le_rfl, Nat.sub_self]
          rfl
        · obtain ⟨d, rfl⟩ := Nat.exists_eq_add_of_lt hs
          rw [if_neg (by omega), if_pos (by omega), show slot + d + 1 - slot = d + 1 by omega]
          rfl
    · rw [if_neg hphy, if_neg fun h => hphy h.2]
      rfl
  · rw [loadTcLink, ImaCfg.modifyGrp, if_neg hslot, if_neg fun h => hslot h.1]
    rfl

theorem tcRead_nil (room : Nat) : tcRead room [] = ([], true) := by
  cases room <;> rfl

theorem tcRead_cons (room : Nat) {c : Char} {p : Text} {n : Int} {q : Text}
    (hn : strtol 0 (c :: p) = (n, q)) :
    tcRead (room + 1) (c :: p) =
        (if toInt n ≤ 0 ∨ (q ≠ [] ∧ q.head? ≠ some ',') then ([], false)
        else (getNphylink (toInt n) :: (tcRead room q.tail).1, (tcRead room q.tail).2)) ∧
      ∀ slot cfg, loadTcLinks (room + 1) (c :: p) slot cfg =
        if toInt n ≤ 0 ∨ (q ≠ [] ∧ q.head? ≠ some ',') then .error .failed
        else loadTcLink (getNphylink (toInt n)) slot cfg >>= loadTcLinks room q.tail (slot + 1) := by
  constructor
  · rw [tcRead, hn]
    exact List.cons_ne_nil c p
  · intro slot cfg
    rw [loadTcLinks, hn]
    exact List.cons_ne_nil c p

theorem loadTcLinks_eq {room : Nat} {p : Text} {numbers : List Int} {whole : Bool}
    (hr : tcRead room p = (numbers, whole)) (slot : Nat) (cfg : ImaCfg) :
    (¬((∀ phy ∈ numbers, Linked phy) ∧ numbers.length ≤ slotRoom - slot) →
      loadTcLinks room p slot cfg = .error .outside) ∧
    ((∀ phy ∈ numbers, Linked phy) ∧ numbers.length ≤ slotRoom - slot →
      loadTcLinks room p slot cfg =
        if whole then .ok (withTcLinks slot numbers cfg, slot + numbers.length)
        else .error .failed) := by
  have hend : ∀ (slot : Nat) (cfg : ImaCfg), Except.ok (ε := Stop) (cfg, slot) =
      .ok (withTcLinks slot [] cfg, slot + ([] : List Int).length) := fun slot cfg => by
    rw [withTcLinks_nil]
    rfl
  induction room generalizing p slot cfg numbers whole with
  | zero =>
      cases hr
      exact ⟨fun hnot => absurd ⟨by simp, by simp⟩ hnot, fun _ => hend slot cfg⟩
  | succ room ih =>
      cases p with
      | nil =>
          cases hr
          exact ⟨fun hnot => absurd ⟨by simp, by simp⟩ hnot, fun _ => hend slot cfg⟩
      | cons c p =>
          obtain ⟨n, q, hn⟩ : ∃ n q, strtol 0 (c :: p) = (n, q) := ⟨_, _, rfl⟩
          obtain ⟨hread, hload⟩ := tcRead_cons room hn
          rw [hr] at hread
          rw [hload]
          by_cases hbad : toInt n ≤ 0 ∨ (q ≠ [] ∧ q.head? ≠ some ',')
          · rw [if_pos hbad] at hread ⊢
            cases hread
            exact ⟨fun hnot => absurd ⟨by simp, by simp⟩ hnot, fun _ => rfl⟩
          · rw [if_neg hbad] at hread ⊢
            obtain ⟨rfl, rfl⟩ := Prod.mk.inj hread
            rw [loadTcLink_eq, ite_bind, List.length_cons]
            obtain ⟨hout, hin⟩ := ih (p := q.tail) rfl (slot + 1)
              (withTcLinks slot [getNphylink (toInt n)] cfg)
            constructor
            · intro hnot
              have hnot' : ¬((slot < slotRoom ∧ Linked (getNphylink (toInt n))) ∧
                  (∀ phy ∈ (tcRead room q.tail).1, Linked phy) ∧
                    (tcRead room q.tail).1.length ≤ slotRoom - (slot + 1)) := by
                rintro ⟨⟨hslot, hphy⟩, hlinked, hlen⟩
                exact hnot ⟨List.forall_mem_cons.mpr ⟨hphy, hlinked⟩, by omega⟩
              exact outside_of_not hout hnot'
            · rintro ⟨hlinked, hlen⟩
              obtain ⟨hphy, hlinked⟩ := List.forall_mem_cons.mp hlinked
              rw [if_pos ⟨by omega, hphy⟩, hin ⟨hlinked, by omega⟩, withTcLinks_cons,
                Nat.add_right_comm slot 1, ← Nat.add_assoc]

theorem loadTcCfg_eq (cfg : ImaCfg) (slot : Nat) :
    (¬(Short h i 512 "PhyLinkID" ∧ (∀ phy ∈ tcNumbers h i, Linked phy) ∧
        (tcNumbers h i).length ≤ slotRoom - slot) → loadTcCfg h cfg i slot = .error .outside) ∧
    ((Short h i 512 "PhyLinkID" ∧ (∀ phy ∈ tcNumbers h i, Linked phy) ∧
        (tcNumbers h i).length ≤ slotRoom - slot) →
      (¬tcWhole h i → loadTcCfg h cfg i slot = .error .failed) ∧
      (tcWhole h i → loadTcCfg h cfg i slot =
        .ok ({ withTcLinks slot (tcNumbers h i) cfg with
          grpNumAll := cfg.grpNumAll + .ofInt ((tcNumbers h i).length - 1) },
          slot + (tcNumbers h i).length))) := by
  rw [loadTcCfg, valueInto_first, ite_bind, tcNumbers, tcWhole]
  cases hv : value h i "PhyLinkID" with
  | none =>
      have hs : Short h i 512 "PhyLinkID" := by simp [Short, hv]
      rw [if_pos hs]
      exact ⟨fun hnot => absurd ⟨hs, by simp [tcRead_nil], by simp [tcRead_nil]⟩ hnot,
        fun _ => ⟨fun _ => rfl, fun hw => absurd hw.1 Bool.false_ne_true⟩⟩
  | some v =>
      have hr : tcRead MAX_LNK_NUM v = ((tcRead MAX_LNK_NUM v).1, (tcRead MAX_LNK_NUM v).2) := rfl
      obtain ⟨hout, hin⟩ := loadTcLinks_eq hr slot cfg
      dsimp only [Option.getD_some]
      constructor
      · intro hnot
        refine outside_of_not (fun hnot => ?_) hnot
        rw [hout hnot]
        rfl
      · rintro ⟨hs, hin'⟩
        rw [if_pos hs, hin hin']
        refine ⟨fun hw => ?_, fun hw => ?_⟩
        · rw [if_neg fun h => hw ⟨rfl, h⟩]
          rfl
        · rw [if_pos hw.2]
          simp [bind, Except.bind, withTcLinks]
          rfl

theorem loadSection_eq (hcounts : mode h i = 2 → Counts h i) (cfg : ImaCfg) :
    (¬Inside h i → loadSection h i (cfg, start h i) = .error .outside) ∧
    (Inside h i → Refused h i → loadSection h i (cfg, start h i) = .error .failed) ∧
    (Inside h i → ¬Refused h i →
      loadSection h i (cfg, start h i) = .ok (after h i cfg, start h (i + 1))) := by
  have hunfold : loadSection h i (cfg, start h i) =
      loadImaModeCfg h i >>= fun mode => cfg.setMode i (.ofInt mode) >>= fun cfg =>
        if mode = 2 then
          loadImaGroupCfg h cfg i >>= fun cfg => cfg.setId i cfg.groupNum >>= fun cfg =>
            .ok ({ cfg with groupNum := cfg.groupNum + 1 }, start h i + 1)
        else if mode = 1 then loadTcCfg h cfg i (start h i)
        else .ok (cfg, start h i) := rfl
  rw [hunfold, loadImaModeCfg_eq, ite_bind]
  by_cases hi : i < slotRoom
  · by_cases hm : Short h i 128 "mode"
    · rw [if_pos hm, ImaCfg.setMode, if_pos hi]
      rcases eq_or_ne (mode h i) 2 with h2 | h2
      · obtain ⟨hout, hfail, hout', hok⟩ := loadImaGroupCfg_eq hi (hcounts h2)
          { cfg with grpMode := update cfg.grpMode i (.ofInt (mode h i)) }
        have hin : Inside h i ↔ CountsShort h i ∧ (Counted h i → LinksInside h i ∧ FieldsShort h i) :=
          ⟨fun hin => hin.2.2.1 h2, fun hg => ⟨hi, hm, fun _ => hg, fun h1 => by omega⟩⟩
        have hr : Refused h i ↔ ¬Counted h i :=
          ⟨fun hr => hr.elim And.right fun h1 => by omega, fun hc => .inl ⟨h2, hc⟩⟩
        rw [hin, hr]
        simp only [bind, Except.bind, h2, if_true]
        rw [h2] at hout hfail hout' hok
        refine ⟨fun hnot => ?_, fun hg hc => ?_, fun hg hc => ?_⟩
        · by_cases hs : CountsShort h i
          · have hc : Counted h i := by
              by_contra hc
              exact hnot ⟨hs, fun h => absurd h hc⟩
            rw [hout' hs hc fun h => hnot ⟨hs, fun _ => h⟩]
          · rw [hout hs]
        · rw [hfail hg.1 hc]
        · have hc := not_not.mp hc
          rw [hok hg.1 hc (hg.2 hc)]
          simp only [ImaCfg.setId, if_pos hi, start, width, h2, if_true, after]
      · simp only [bind, Except.bind, if_neg h2]
        rcases eq_or_ne (mode h i) 1 with h1 | h1
        · obtain ⟨hout, hin'⟩ := loadTcCfg_eq (h := h) (i := i)
            { cfg with grpMode := update cfg.grpMode i (.ofInt (mode h i)) } (start h i)
          have hin : Inside h i ↔ Short h i 512 "PhyLinkID" ∧
              (∀ phy ∈ tcNumbers h i, Linked phy) ∧
              (tcNumbers h i).length ≤ slotRoom - start h i :=
            ⟨fun hin => hin.2.2.2 h1, fun ht => ⟨hi, hm, fun h2' => absurd h2' h2, fun _ => ht⟩⟩
          have hr : Refused h i ↔ ¬tcWhole h i :=
            ⟨fun hr => hr.elim (fun h2' => absurd h2'.1 h2) And.right, fun hw => .inr ⟨h1, hw⟩⟩
          rw [hin, hr, if_pos h1]
          refine ⟨hout, fun ht hw => (hin' ht).1 hw, fun ht hw => ?_⟩
          rw [(hin' ht).2 (not_not.mp hw)]
          simp only [start, width, after, if_neg h2, if_pos h1]
          rfl
        · have hin : Inside h i := ⟨hi, hm, fun h2' => absurd h2' h2, fun h1' => absurd h1' h1⟩
          have hr : ¬Refused h i := fun hr =>
            hr.elim (fun h2' => h2 h2'.1) fun h1' => h1 h1'.1
          refine ⟨fun hnot => absurd hin hnot, fun _ h => absurd h hr, fun _ _ => ?_⟩
          simp only [start, width, after, if_neg h2, if_neg h1, Nat.add_zero]
    · rw [if_neg hm]
      exact ⟨fun _ => rfl, fun hin => absurd hin.2.1 hm, fun hin => absurd hin.2.1 hm⟩
  · refine ⟨fun _ => ite_outside ?_, fun hin => absurd hin.1 hi, fun hin => absurd hin.1 hi⟩
    rw [ImaCfg.setMode, if_neg hi]
    rfl

theorem loadSections_succ (n : Nat) (s : ImaCfg × Nat) :
    loadSections h (List.range (n + 1)) s =
      loadSections h (List.range n) s >>= fun s => loadSection h n s := by
  rw [loadSections, List.range_succ, List.foldlM_append]
  simp only [List.foldlM_cons, List.foldlM_nil, bind_pure]
  rfl

/-- No section up to one leaves an array or is turned down. -/
def Accepted (h : CConfig) (n : Nat) : Prop := ∀ i < n, Inside h i ∧ ¬Refused h i

section

variable {text : Text}

theorem counts_of_mode (hload : cfgInitialize text = some h) (hmode : mode h i ≠ -1) :
    Counts h i := by
  intro id
  have hm : ∃ v, v ∈ lines h i "mode" := by
    cases hl : lines h i "mode" with
    | nil =>
        rw [mode, value, hl] at hmode
        exact absurd rfl hmode
    | cons v vs => exact ⟨v, List.mem_cons_self⟩
  obtain ⟨v, hv⟩ := hm
  obtain ⟨t, ht, -⟩ := List.mem_map.mp hv
  obtain ⟨ht, hname⟩ := List.mem_filter.mp ht
  rw [lines]
  cases htok : (h.named "IMA Group".toList)[i]? with
  | none =>
      rw [tokensOf, htok] at ht
      cases ht
  | some tokens =>
      rw [tokensOf, htok, Option.getD_some] at ht ⊢
      rcases named_unmixed hload htok with hs | hvec
      · exact cfgGetCount_eq htok (fun t ht => (hs t ht).1) _
      · rw [(hvec t ht).2] at hname
        exact absurd hname Bool.false_ne_true

theorem loadSection_accepted (hload : cfgInitialize text = some h) (cfg : ImaCfg) :
    (¬Inside h i → loadSection h i (cfg, start h i) = .error .outside) ∧
    (Inside h i → Refused h i → loadSection h i (cfg, start h i) = .error .failed) ∧
    (Inside h i → ¬Refused h i →
      loadSection h i (cfg, start h i) = .ok (after h i cfg, start h (i + 1))) :=
  loadSection_eq (fun h2 => counts_of_mode hload (by omega)) cfg

theorem loadSections_ok (hload : cfgInitialize text = some h) {n : Nat} (hn : Accepted h n) :
    loadSections h (List.range n) (cleared (grpCount h), 0) = .ok (fillTo h n, start h n) := by
  induction n with
  | zero => rfl
  | succ n ih =>
      rw [loadSections_succ, ih fun i hi => hn i (by omega)]
      exact (loadSection_accepted hload _).2.2 (hn n (by omega)).1 (hn n (by omega)).2

theorem loadSections_error (hload : cfgInitialize text = some h) {n : Nat} {e : Stop}
    (hi : Accepted h i) (hin : i < n)
    (he : loadSection h i (fillTo h i, start h i) = .error e) :
    loadSections h (List.range n) (cleared (grpCount h), 0) = .error e := by
  induction n with
  | zero => omega
  | succ n ih =>
      rw [loadSections_succ]
      rcases Nat.lt_or_ge i n with hlt | hge
      · rw [ih hlt]
        rfl
      · obtain rfl : i = n := by omega
        rw [loadSections_ok hload hi]
        exact he

theorem imacfgLoad_eq : imacfgLoad h =
    loadSections h (List.range (grpCount h)) (cleared (grpCount h), 0) >>= fun s =>
      checks s.1 >>= fun _ => .ok s.1 := by
  rw [imacfgLoad, cfgGetCount_sections]
  rfl

theorem imacfgLoad_accepted (hload : cfgInitialize text = some h)
    (hn : Accepted h (grpCount h)) :
    imacfgLoad h = checks (fillTo h (grpCount h)) >>= fun _ => .ok (fillTo h (grpCount h)) := by
  rw [imacfgLoad_eq, loadSections_ok hload hn]
  rfl

theorem imacfgLoad_error (hload : cfgInitialize text = some h) (hi : Accepted h i)
    (hin : i < grpCount h) {e : Stop}
    (he : loadSection h i (fillTo h i, start h i) = .error e) : imacfgLoad h = .error e := by
  rw [imacfgLoad_eq, loadSections_error hload hi hin he]
  rfl

theorem accepted_or (h : CConfig) (n : Nat) :
    Accepted h n ∨ ∃ i < n, Accepted h i ∧ (¬Inside h i ∨ (Inside h i ∧ Refused h i)) := by
  induction n with
  | zero => exact .inl fun i hi => absurd hi (Nat.not_lt_zero i)
  | succ n ih =>
      obtain hn | ⟨i, hi, hacc, hbad⟩ := ih
      · by_cases hin : Inside h n
        · by_cases hr : Refused h n
          · exact .inr ⟨n, by omega, hn, .inr ⟨hin, hr⟩⟩
          · refine .inl fun i hi => ?_
            rcases Nat.lt_or_ge i n with hlt | hge
            · exact hn i hlt
            · obtain rfl : i = n := by omega
              exact ⟨hin, hr⟩
        · exact .inr ⟨n, by omega, hn, .inl hin⟩
      · exact .inr ⟨i, by omega, hacc, hbad⟩

theorem imacfgLoad_ok (hload : cfgInitialize text = some h) {cfg : ImaCfg}
    (hok : imacfgLoad h = .ok cfg) :
    Accepted h (grpCount h) ∧ cfg = fillTo h (grpCount h) ∧ checks cfg = .ok () := by
  obtain hn | ⟨i, hi, hacc, hbad⟩ := accepted_or h (grpCount h)
  · rw [imacfgLoad_accepted hload hn] at hok
    refine ⟨hn, ?_⟩
    cases hc : checks (fillTo h (grpCount h)) with
    | error e =>
        rw [hc] at hok
        cases hok
    | ok u =>
        rw [hc] at hok
        obtain rfl := Except.ok.inj hok
        exact ⟨rfl, hc⟩
  · obtain ⟨hout, hfail, -⟩ := loadSection_accepted (i := i) hload (fillTo h i)
    rcases hbad with hbad | ⟨hin, hr⟩
    · rw [imacfgLoad_error hload hacc hi (hout hbad)] at hok
      cases hok
    · rw [imacfgLoad_error hload hacc hi (hfail hin hr)] at hok
      cases hok

end

end OiAmc.Imacfg
