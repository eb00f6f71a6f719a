import Balancer.State
import Mathlib.Tactic

/-!
# What the checks of a configuration leave open

`read_config` checks lower bounds, and the values are used elsewhere: the ports by `htons` in
`LoadBalancer.cpp` and `LoadBalancerState.cpp`, the connection type where the two sockets are
created, the key by `main` of the health reporter.

* `UsedUnaltered`: every one of these uses gets the configured value.
* `usedUnaltered_iff`: which accepted configurations are used so.
-/

namespace Balancer

open Cpp

/-- The second argument of `socket(AF_INET, type, 0)`. -/
inductive SocketType
  | stream
  | datagram
  deriving DecidableEq, Repr

/-- The branches that create `listener_socket` and, for each client, `node_socket`. With any other
connection type none of them is taken and the variable keeps an indeterminate value. -/
def socketType (connectionType : String) : Option SocketType :=
  if connectionType = "TCP" then some .stream
  else if connectionType = "UDP" then some .datagram
  else none

/-- The parameter of `htons` has 16 bits. The value is the port on the wire: the order of its two
bytes in memory is the network's. -/
def htons (port : Int) : BitVec 16 := BitVec.ofInt 16 port

/-- The size `main` of the health reporter requires of its `enc_key`. -/
def reporterKeyLength : Nat := 16

namespace LoadBalancerConfiguration

/-- `listener_address.sin_port`. -/
def listenerSinPort (config : LoadBalancerConfiguration) : BitVec 16 := htons config.listenerPort

/-- The type of `listener_socket`. -/
def listenerSocket (config : LoadBalancerConfiguration) : Option SocketType :=
  socketType config.connectionType

/-- The type of `node_socket`. -/
def nodeSocket (config : LoadBalancerConfiguration) : Option SocketType :=
  socketType config.connectionType

end LoadBalancerConfiguration

namespace NodeConfiguration

/-- `node_address.sin_port` in the listener. -/
def targetSinPort (node : NodeConfiguration) : BitVec 16 := htons node.targetPort

/-- `node_address.sin_port` in `lb_rt_thread`. -/
def healthSinPort (node : NodeConfiguration) : BitVec 16 := htons node.healthDaemon

end NodeConfiguration

/-! ## Values that arrive unaltered -/

/-- The 16 bits are the value of the `int`. -/
def Carries (sinPort : BitVec 16) (port : Int) : Prop := (sinPort.toNat : Int) = port

/-- Every use of the configuration gets the configured value and is defined. The health ports and
the key are used under `RESOURCE` only. -/
structure UsedUnaltered (config : LoadBalancerConfiguration) : Prop where
  listenerPort : Carries config.listenerSinPort config.listenerPort
  targetPort : ∀ node ∈ config.nodes, Carries node.targetSinPort node.targetPort
  healthDaemon : config.balancerAlgorithm = "RESOURCE" →
    ∀ node ∈ config.nodes, Carries node.healthSinPort node.healthDaemon
  listenerSocket : config.listenerSocket.isSome
  nodeSocket : config.nodeSocket.isSome
  encKey : config.balancerAlgorithm = "RESOURCE" → config.encKey.length = reporterKeyLength

theorem carries_htons_iff {port : Int} (h0 : 0 ≤ port) :
    Carries (htons port) port ↔ port ≤ 65535 := by
  rw [Carries, htons, BitVec.toNat_ofInt]
  omega

theorem socketType_isSome_iff {connectionType : String} :
    (socketType connectionType).isSome ↔ connectionType = "TCP" ∨ connectionType = "UDP" := by
  unfold socketType
  split
  · rename_i hTcp
    simp [hTcp]
  · rename_i hTcp
    split
    · rename_i hUdp
      simp [hUdp]
    · rename_i hUdp
      simp [hTcp, hUdp]

/-- **What the checks leave open.** A configuration that `read_config` accepts, whatever the
constructor says about its algorithm, is used unaltered exactly when its ports fit 16 bits, its
connection type is one of the two, and under `RESOURCE` its health ports fit too and its key has 16
bytes. -/
theorem usedUnaltered_iff {configJson config : LoadBalancerConfiguration}
    (hConfig : configJson.readConfig = .ok config) :
    UsedUnaltered config ↔
      config.listenerPort ≤ 65535 ∧ (∀ node ∈ config.nodes, node.targetPort ≤ 65535) ∧
      (config.connectionType = "TCP" ∨ config.connectionType = "UDP") ∧
      (config.balancerAlgorithm = "RESOURCE" →
        (∀ node ∈ config.nodes, node.healthDaemon ≤ 65535) ∧ config.encKey.length = 16) := by
  obtain ⟨-, hAccepted⟩ := readConfig_eq_ok.mp hConfig
  have hListener := carries_htons_iff hAccepted.listenerPort.le
  have hTarget : ∀ node ∈ config.nodes,
      (Carries node.targetSinPort node.targetPort ↔ node.targetPort ≤ 65535) :=
    fun node hNode => carries_htons_iff (hAccepted.nodesAccepted node hNode).targetPort.le
  have hHealth : ∀ node ∈ config.nodes,
      (Carries node.healthSinPort node.healthDaemon ↔ node.healthDaemon ≤ 65535) :=
    fun node hNode => carries_htons_iff (hAccepted.nodesAccepted node hNode).healthDaemon.le
  constructor
  · rintro ⟨hPort, hTargets, hDaemons, hSocket, -, hKey⟩
    refine ⟨hListener.mp hPort, fun node hNode => (hTarget node hNode).mp (hTargets node hNode),
      socketType_isSome_iff.mp hSocket, ?_⟩
    intro hResource
    exact ⟨fun node hNode => (hHealth node hNode).mp (hDaemons hResource node hNode),
      hKey hResource⟩
  · rintro ⟨hPort, hTargets, hType, hResource⟩
    have hSocket := socketType_isSome_iff.mpr hType
    exact {
      listenerPort := hListener.mpr hPort
      targetPort := fun node hNode => (hTarget node hNode).mpr (hTargets node hNode)
      healthDaemon := fun h node hNode => (hHealth node hNode).mpr ((hResource h).1 node hNode)
      listenerSocket := hSocket
      nodeSocket := hSocket
      encKey := fun h => (hResource h).2 }

theorem usedUnaltered_iff_test :
    UsedUnaltered (testConfig "RANDOM") ↔
      (testConfig "RANDOM").listenerPort ≤ 65535 ∧
      (∀ node ∈ (testConfig "RANDOM").nodes, node.targetPort ≤ 65535) ∧
      ((testConfig "RANDOM").connectionType = "TCP" ∨
        (testConfig "RANDOM").connectionType = "UDP") ∧
      ((testConfig "RANDOM").balancerAlgorithm = "RESOURCE" →
        (∀ node ∈ (testConfig "RANDOM").nodes, node.healthDaemon ≤ 65535) ∧
          (testConfig "RANDOM").encKey.length = 16) :=
  usedUnaltered_iff (show (testConfig "RANDOM").readConfig = .ok _ from rfl)

/-- The four-byte key of the tests is accepted under `RESOURCE`. -/
theorem not_usedUnaltered_short_key :
    ¬ ∀ (configJson config : LoadBalancerConfiguration) (state : LoadBalancerState (BitVec 32)),
      configJson.readConfig = .ok config → LoadBalancerState.new config = .ok state →
        UsedUnaltered config := by
  intro h
  have hKey := (h (testConfig "RESOURCE") _ _ rfl rfl).encKey rfl
  revert hKey
  decide

end Balancer
