import Balancer.Codec.Base64
import Balancer.Codec.HealthReport
import Balancer.Codec.Plusaes
import Balancer.Realtime.Messages
import Balancer.State

/-!
# What `lb_rt_thread` does with a received message

The handshake and the report loop of `LoadBalancerState::lb_rt_thread` (`LoadBalancerState.cpp`),
one definition for the code between two calls of `recv`. Its control flow over connections, which
interleaves with the other threads, is in `Realtime/System.lean`.

* `awaitMsg2`, `awaitMsg4`: the replies of the handshake. `awaitMsg4` takes the meaning of
  `iv_str[i]` as a parameter: `stringAt` stops at a read outside of the string, `stringAtAnyway`
  reads on in the memory behind it.
* `receiveReport`: the outcome of a message in the report loop.
* `ReportOutcome.writes`: the assignments to the node that an outcome stands for, in order.
-/

namespace Balancer

open Cpp Plusaes

namespace LbRtThread

/-- What is sent first, with the NUL of the literal. -/
def hello : Bytes := HR_HANDSHAKE_MSG_1 ++ [0]

/-- The answer to the second message of the handshake. -/
def acknowledgement : Bytes := HR_HANDSHAKE_MSG_3 ++ [0]

/-- Whether the second message of the handshake is accepted. -/
def awaitMsg2 (received : Bytes) : Result Bool :=
  strncmpEq (recvInto zeroBuffer received) HR_HANDSHAKE_MSG_2

/-- `iv_str[i]` when a read outside of the string yields what `beyond` says the memory holds. -/
def stringAtAnyway (beyond : Nat → UInt8) (s : Bytes) (i : Nat) : Result UInt8 :=
  pure ((s ++ [0]).getD i (beyond i))

/-- The fourth message of the handshake: the initialization vector, `none` when the message is
refused. -/
def awaitMsg4 (index : Bytes → Nat → Result UInt8) (received : Bytes) : Result (Option Block) := do
  let buffer := recvInto zeroBuffer received
  if ← strncmpEq buffer HR_HANDSHAKE_MSG_4 then
    let str ← cString buffer
    let ivStr ← substr str HR_HANDSHAKE_MSG_4.length
    let bytes ← readEach (index ivStr) 0 16
    let iv ← Block.read bytes 0
    pure (some iv)
  else pure none

/-- The sixteen bytes that `iv_str` gives, out of what stands behind `HR_HANDSHAKE_MSG_4`. -/
def readIv (index : Bytes → Nat → Result UInt8) (ivStr : Bytes) : Result (Option Block) := do
  let bytes ← readEach (index ivStr) 0 16
  let iv ← Block.read bytes 0
  pure (some iv)

/-- The fourth message, when it has its prefix and is a C string. -/
theorem awaitMsg4_append (index : Bytes → Nat → Result UInt8) {bytes : Bytes}
    (h : (HR_HANDSHAKE_MSG_4 ++ bytes).length ≤ BUFFER_SIZE)
    (hEnd : (HR_HANDSHAKE_MSG_4 ++ bytes).length < BUFFER_SIZE ∨ 0 ∈ HR_HANDSHAKE_MSG_4 ++ bytes) :
    awaitMsg4 index (HR_HANDSHAKE_MSG_4 ++ bytes) = readIv index (bytes.takeWhile (· ≠ 0)) := by
  have hPrefix : strncmpEq (recvInto zeroBuffer (HR_HANDSHAKE_MSG_4 ++ bytes)) HR_HANDSHAKE_MSG_4 =
      .ok true := by
    rw [recvInto, List.append_assoc]
    exact strncmpEq_append _ _
  have hString : cString (recvInto zeroBuffer (HR_HANDSHAKE_MSG_4 ++ bytes)) =
      .ok (HR_HANDSHAKE_MSG_4 ++ bytes.takeWhile (· ≠ 0)) := by
    rw [cString_recvInto_eq_ok h]
    exact ⟨hEnd, rfl⟩
  have hSubstr : substr (HR_HANDSHAKE_MSG_4 ++ bytes.takeWhile (· ≠ 0)) HR_HANDSHAKE_MSG_4.length =
      .ok (bytes.takeWhile (· ≠ 0)) := by
    rw [substr_of_le (by simp), List.drop_left]
  unfold awaitMsg4
  dsimp only
  rw [hPrefix, ok_bind, if_pos rfl, hString, ok_bind, hSubstr]
  rfl

/-- Without the prefix the connection is given up. -/
theorem awaitMsg4_of_other_start (index : Bytes → Nat → Result UInt8) {received : Bytes}
    (h : received.length ≤ BUFFER_SIZE) (hPrefix : ¬ HR_HANDSHAKE_MSG_4 <+: received) :
    awaitMsg4 index received = .ok none := by
  have hLength : HR_HANDSHAKE_MSG_4.length ≤ (recvInto zeroBuffer received).length := by
    rw [length_recvInto (by rwa [length_zeroBuffer]), length_zeroBuffer]
    decide
  have hCompare : strncmpEq (recvInto zeroBuffer received) HR_HANDSHAKE_MSG_4 = .ok false := by
    have hNot : ¬ HR_HANDSHAKE_MSG_4 <+: recvInto zeroBuffer received := by
      rwa [prefix_recvInto (by decide)]
    rw [strncmpEq_of_length hLength, decide_eq_false hNot]
  unfold awaitMsg4
  dsimp only
  rw [hCompare]
  rfl

theorem readIv_eq_ok {index : Bytes → Nat → Result UInt8} {ivStr : Bytes} {iv : Block}
    (h : ∀ k, (hk : k < iv.bytes.length) → index ivStr k = .ok iv.bytes[k]) :
    readIv index ivStr = .ok (some iv) := by
  have hBytes : readEach (index ivStr) 0 16 = .ok iv.bytes := by
    rw [← iv.length_eq]
    apply readEach_eq_ok
    intro k hk
    rw [Nat.zero_add]
    exact h k hk
  have hRead := Block.read_append iv []
  rw [List.append_nil] at hRead
  rw [readIv, hBytes, ok_bind, hRead]
  rfl

/-! ## Reports -/

/-- What a message in the report loop amounts to. -/
inductive ReportOutcome
  | ignored
  | rejected
  | applied (hr : HealthReport)
  deriving DecidableEq

/-- Decrypt and deserialize `payloadLen` bytes. The result of `decrypt_cbc` is not looked at. The
allocation of `decryptedPayload` is taken to succeed. -/
def openReport (aes : Cipher) (encKey : Bytes) (iv : Block) (decodedPayload : Bytes)
    (payloadLen : Nat) : Result HealthReport := do
  let decryptedPayload := List.replicate payloadLen 0
  let decryption ← decryptCbc aes decodedPayload payloadLen encKey iv decryptedPayload
  HealthReport.deserialize decryption.decrypted

/-- One iteration of the report loop, up to the assignments to the node. -/
def receiveReport (aes : Cipher) (encKey : Bytes) (iv : Block) (received : Bytes) :
    Result ReportOutcome := do
  let payload ← cString (recvInto zeroBuffer received)
  match find payload 10 with
  | none => pure .ignored
  | some newlinePos =>
    let payloadLenStr ← substr payload (newlinePos + 1)
    let payloadLen ← stoi payloadLenStr
    if payloadLen ≤ 0 then pure .rejected
    else
      let decodedPayload := List.replicate (payload.length * 2) 0
      let (_, decodedPayload) ← Base64.base64Decode decodedPayload payload
      let hr ← openReport aes encKey iv decodedPayload payloadLen.toNat
      pure (.applied hr)

/-- An assignment to a field of a node. -/
inductive NodeWrite
  | cpuUsage (x : FloatBits)
  | memUsage (x : FloatBits)
  | lastChecked (now : Int)
  | status (s : NodeStatus)
  deriving DecidableEq

def NodeWrite.apply (node : NodeState FloatBits) : NodeWrite → NodeState FloatBits
  | .cpuUsage x => { node with cpuUsage := x }
  | .memUsage x => { node with memUsage := x }
  | .lastChecked now => node.setLastChecked now
  | .status s => node.setStatus s

/-- The assignments of one iteration of the report loop, `now` being `time(NULL)`. -/
def ReportOutcome.writes (now : Int) : ReportOutcome → List NodeWrite
  | .ignored => []
  | .rejected => [.status .down]
  | .applied hr => [.cpuUsage hr.cpuLoad, .memUsage hr.memLoad, .lastChecked now, .status .up]

/-- The node after one iteration of the report loop. -/
def processMessage (aes : Cipher) (encKey : Bytes) (iv : Block) (node : NodeState FloatBits)
    (now : Int) (received : Bytes) : Result (NodeState FloatBits) := do
  let outcome ← receiveReport aes encKey iv received
  pure ((outcome.writes now).foldl NodeWrite.apply node)

/-- The report loop on a sequence of messages, each with the time it is processed at. -/
def reportLoop (aes : Cipher) (encKey : Bytes) (iv : Block) :
    NodeState FloatBits → List (Int × Bytes) → Result (NodeState FloatBits)
  | node, [] => pure node
  | node, (now, received) :: rest => do
    let node ← processMessage aes encKey iv node now received
    reportLoop aes encKey iv node rest

/-! ## The stages of a report -/

/-- What `Base64decode` leaves in the zeroed buffer for a string. -/
def decodedBuffer (payload : Bytes) : Bytes :=
  Base64.decodeLoop (Base64.countCoded payload) payload ++
    List.replicate (payload.length * 2 - Base64.countCoded payload * 3 / 4) 0

theorem length_decodedBuffer (payload : Bytes) :
    (decodedBuffer payload).length = payload.length * 2 := by
  have hCount := Base64.countCoded_le payload
  rw [decodedBuffer, List.length_append, Base64.length_decodeLoop hCount, List.length_replicate]
  omega

theorem base64Decode_zeros {payload : Bytes} (h : 0 < payload.length) :
    Base64.base64Decode (List.replicate (payload.length * 2) 0) payload =
      .ok (Base64.decodedCount (Base64.countCoded payload), decodedBuffer payload) := by
  have hCount := Base64.countCoded_le payload
  rw [Base64.base64Decode_fits h List.length_replicate, List.drop_replicate, ← List.replicate_succ,
    decodedBuffer]
  congr 4
  omega

/-- The received bytes are a string with a first newline: `text` stands before it and `number`
after it. -/
structure Splits (received text number : Bytes) : Prop where
  cString : cString (recvInto zeroBuffer received) = .ok (text ++ 10 :: number)
  noNewline : 10 ∉ text

/-- The stages after the newline has been found. -/
theorem Splits.receiveReport_eq {received text number : Bytes} (h : Splits received text number)
    (aes : Cipher) (encKey : Bytes) (iv : Block) :
    receiveReport aes encKey iv received = (do
      let payloadLen ← stoi number
      if payloadLen ≤ 0 then pure .rejected
      else
        let hr ← openReport aes encKey iv (decodedBuffer (text ++ 10 :: number)) payloadLen.toNat
        pure (.applied hr)) := by
  have hFind := find_append_cons h.noNewline number
  have hSubstr : substr (text ++ 10 :: number) (text.length + 1) = .ok number := by
    rw [substr_of_le (by simp)]
    simp
  have hDecode := base64Decode_zeros (show 0 < (text ++ 10 :: number).length by simp)
  rw [receiveReport, h.cString, ok_bind, hFind]
  dsimp only
  rw [hSubstr, ok_bind, hDecode]
  rfl

/-- A string without a newline is ignored. -/
theorem receiveReport_of_no_newline {received payload : Bytes} (aes : Cipher) (encKey : Bytes)
    (iv : Block) (hString : cString (recvInto zeroBuffer received) = .ok payload)
    (hNewline : 10 ∉ payload) : receiveReport aes encKey iv received = .ok .ignored := by
  rw [receiveReport, hString, ok_bind, find_eq_none.mpr hNewline]
  rfl

/-- A string is without a newline, or splits at its first one. -/
theorem splits_or_no_newline {received payload : Bytes}
    (hString : cString (recvInto zeroBuffer received) = .ok payload) :
    10 ∉ payload ∨ ∃ text number, Splits received text number := by
  cases hFind : find payload 10 with
  | none => exact Or.inl (find_eq_none.mp hFind)
  | some pos =>
    obtain ⟨text, number, rfl, hText, -⟩ := find_eq_some hFind
    exact Or.inr ⟨text, number, hString, hText⟩

end LbRtThread

end Balancer
