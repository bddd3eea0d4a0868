import OiAmc.PktcmdTable
import OiAmc.MessageSafety

namespace OiAmc.Pktcmd

open MessageLayout

inductive Side
  | input
  | output
  deriving DecidableEq

/-- The argument structure of a command on one side, where both functions exist. -/
def Cmd.message (c : Cmd) : Side → Option (Message Field)
  | .input => some c.input
  | .output => c.output

theorem input_regular (c : Cmd) : c.input.Regular Field.type := by
  cases c <;> decide

theorem output_regular {c : Cmd} (hc : c ≠ .getLineStatInfo) {m : Message Field}
    (hm : c.output = some m) : m.Regular Field.type := by
  have hall : ∀ m ∈ c.output, m.Regular Field.type := by
    cases c
    case getLineStatInfo => exact absurd rfl hc
    all_goals
      simp only [Cmd.output, Option.mem_def, Option.some.injEq, forall_eq', reduceCtorEq,
        false_imp_iff, implies_true]
    all_goals decide
  exact hall m hm

def lineStatInfoOut : Message Field :=
  ⟨cmdGetLineStatInfoOut, cmdGetLineStatInfoOutEncode, cmdGetLineStatInfoOutDecode⟩

theorem lineStatInfoOut_not_roundTrips {v : Value Field}
    (hv : ∀ f ∈ lineStatInfoOut.fields, InRange Field.type v f) (room : Int → Bool) :
    ¬RoundTrips Field.type lineStatInfoOut room v := by
  have hencode : lineStatInfoOut.encode =
      (lineStatInfoOut.decode ++ [decode32 .sdhStatisticsRei]).map Get.put := rfl
  have hlen : (write lineStatInfoOut.encode v).length = 41 := by
    rw [hencode, length_write_nums (by decide)]
    rfl
  have hrest : write [coding32 .sdhStatisticsRei] v ≠ [] := by
    intro hnil
    have h := congrArg List.length hnil
    rw [write_cons, List.length_append, Put.write, length_be] at h
    simp [write] at h
  exact not_roundTrips rfl (by decide) hv (by rw [hlen]; decide) hrest room

/-- An argument structure in range comes back whole just when it is not the line
statistics and its functions leave out nothing of it. -/
theorem message_roundTrips_iff (c : Cmd) (side : Side) (m : Message Field)
    (hm : c.message side = some m) (v : Value Field) (hv : ∀ f ∈ m.fields, InRange Field.type v f)
    (room : Int → Bool) : RoundTrips Field.type m room v ↔
      ¬(c = .getLineStatInfo ∧ side = .output) ∧ Faithful Field.type m room v := by
  cases side with
  | input =>
      obtain rfl := Option.some.inj hm
      rw [(input_regular c).roundTrips_iff hv room]
      simp
  | output =>
      by_cases hc : c = .getLineStatInfo
      · subst hc
        obtain rfl := Option.some.inj hm
        exact iff_of_false (lineStatInfoOut_not_roundTrips hv room) fun h => h.1 ⟨rfl, rfl⟩
      · rw [(output_regular hc hm).roundTrips_iff hv room]
        simp [hc]

/-- An interface at 10.0.0.2. -/
def someEther : Value Field where
  num
    | .etherItfNumber => 1
    | .etherItfIP => 0x0a000002
    | .etherItfNetmask => 0xffffff00
    | _ => 0
  chars _ := []
  data := none

theorem message_roundTrips_iff_ether :
    RoundTrips Field.type ⟨cmdGetEtherInfoOut, cmdGetEtherInfoOutEncode, cmdGetEtherInfoOutDecode⟩
        (fun _ => true) someEther ↔
      ¬(Cmd.getEtherInfo = .getLineStatInfo ∧ Side.output = .output) ∧ Faithful Field.type
        ⟨cmdGetEtherInfoOut, cmdGetEtherInfoOutEncode, cmdGetEtherInfoOutDecode⟩ (fun _ => true)
        someEther :=
  message_roundTrips_iff .getEtherInfo .output _ rfl someEther
    (by simp [cmdGetEtherInfoOut, InRange, Field.type, someEther]) _

/-- Seven remote errors in the line statistics, all else 0. -/
def someErrors : Value Field where
  num f := if f = .sdhStatisticsRei then 7 else 0
  chars _ := []
  data := none

theorem someErrors_inRange : ∀ f ∈ lineStatInfoOut.fields, InRange Field.type someErrors f := by
  simp [lineStatInfoOut, cmdGetLineStatInfoOut, InRange, Field.type, someErrors]

theorem remote_errors_lost : ¬∀ (c : Cmd) (side : Side) (m : Message Field),
    c.message side = some m → ∀ v, (∀ f ∈ m.fields, InRange Field.type v f) → ∀ room,
      RoundTrips Field.type m room v := by
  intro h
  apply lineStatInfoOut_not_roundTrips someErrors_inRange fun _ => true
  exact h .getLineStatInfo .output lineStatInfoOut rfl someErrors someErrors_inRange _

theorem string_pos (f : Field) (size : Nat) (h : f.type = .string size) : 0 < size := by
  cases f <;> cases h <;> decide

theorem input_guarded (c : Cmd) : c.input.Guarded Field.type := by
  cases c <;> decide

theorem output_guarded (c : Cmd) {m : Message Field} (hm : c.output = some m) :
    m.Guarded Field.type := by
  have hall : ∀ m ∈ c.output, m.Guarded Field.type := by
    cases c
    all_goals
      simp only [Cmd.output, Option.mem_def, Option.some.injEq, forall_eq', reduceCtorEq,
        false_imp_iff, implies_true]
    all_goals decide
  exact hall m hm

/-- The decoder of an argument is safe just on the octets that have the MAC address or the
block at their end whole, or not even the numbers in front of it. -/
theorem decode_safe_iff (c : Cmd) (side : Side) (m : Message Field) (hm : c.message side = some m)
    (buf : Octets) (room : Int → Bool) (len : Int) (hlen : 0 ≤ len) :
    Safe Field.type m buf room len ↔ m.Enough buf len := by
  cases side with
  | input =>
      obtain rfl := Option.some.inj hm
      exact (input_guarded c).safe_iff string_pos buf room hlen
  | output => exact (output_guarded c hm).safe_iff string_pos buf room hlen

theorem decode_safe_iff_ether :
    Safe Field.type Cmd.getEtherInfo.input (memory [1, 1]) (fun _ => true) 2 ↔
      Cmd.getEtherInfo.input.Enough (memory [1, 1]) 2 :=
  decode_safe_iff .getEtherInfo .input _ rfl _ _ 2 (by decide)

/-- An upload of a configuration that ends with its size, of 65536 octets. -/
def cutUpload : List UInt8 :=
  List.replicate (Cmd.uploadPortCfgFile.input.front - 4) 0 ++ [0, 1, 0, 0]

theorem cut_upload_not_safe : ¬∀ (c : Cmd) (side : Side) (m : Message Field),
    c.message side = some m → ∀ (buf : Octets) (room : Int → Bool) (len : Int), 0 ≤ len →
      Safe Field.type m buf room len := by
  intro h
  have hsafe := h .uploadPortCfgFile .input _ rfl (memory cutUpload) (fun _ => true)
    cutUpload.length (by decide)
  rw [(input_guarded .uploadPortCfgFile).safe_iff string_pos _ _ (by decide)] at hsafe
  revert hsafe
  decide

end OiAmc.Pktcmd
