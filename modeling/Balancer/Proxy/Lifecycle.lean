import Balancer.Listener
import Balancer.Proxy.Forward
import Balancer.Runs
import Balancer.Validation

/-!
# The sockets of a connection

`LoadBalancer::listener` behind `listen`, with the two detached `forward_traffic` threads of every
connection (`LoadBalancer.cpp`). A run is a sequence of results of system calls and of answers of
`chooseNode`, in any order the control points allow (`Step`). A descriptor is the number of its
opening, so a number that the kernel uses again counts as a new one.

* `Accounts`: every descriptor has one place, and what the labels of a run say about its state.
* `kept_iff`: the sockets are taken care of exactly as long as no `connect` fails and no connection
  ends on both sides.
-/

namespace Balancer

open Cpp Runs

/-- `forward_client_to_node_thread` and `forward_node_to_client_thread`. -/
inductive Direction
  | clientToNode
  | nodeToClient
  deriving DecidableEq, Repr

/-- A connection whose two threads have been started. `nodeSocket` is `none` for the `-1` of a
failed `socket`; `connected` is the result of `connect`, which the code does not keep. -/
structure Connection where
  client : Nat
  nodeSocket : Option Nat
  connected : Bool
  thread : Direction → ForwardThread

namespace Connection

def fromSocket (conn : Connection) : Direction → Option Nat
  | .clientToNode => some conn.client
  | .nodeToClient => conn.nodeSocket

def toSocket (conn : Connection) : Direction → Option Nat
  | .clientToNode => conn.nodeSocket
  | .nodeToClient => some conn.client

def putThread (d : Direction) (t : ForwardThread) (conn : Connection) : Connection :=
  { conn with thread := Function.update conn.thread d t }

/-- The descriptors the connection was given. -/
def descriptors (conn : Connection) : List Nat := conn.client :: conn.nodeSocket.toList

@[simp] theorem putThread_descriptors (d : Direction) (t : ForwardThread) (conn : Connection) :
    (conn.putThread d t).descriptors = conn.descriptors := rfl

@[simp] theorem putThread_connected (d : Direction) (t : ForwardThread) (conn : Connection) :
    (conn.putThread d t).connected = conn.connected := rfl

/-- Both loops have returned. -/
def Returned (conn : Connection) : Prop := ∀ d, (conn.thread d).pc = .returned

end Connection

/-- The control points of the loop of `listener`, with the sockets it holds there. -/
inductive ListenerPc
  | accepting
  | choosing (client : Nat)
  | opening (client : Nat)
  | connecting (client : Nat) (nodeSocket : Option Nat)
  deriving DecidableEq, Repr

/-- The descriptors of the connection that is being set up. -/
def ListenerPc.descriptors : ListenerPc → List Nat
  | .accepting => []
  | .choosing client | .opening client => [client]
  | .connecting client nodeSocket => client :: nodeSocket.toList

/-- The listener and its threads. Descriptor `0` is the listening socket, `opened` the number of
descriptors so far, `closed` the arguments of `close` in their order. -/
structure Proxy where
  pc : ListenerPc
  connections : List Connection
  opened : Nat
  closed : List Nat

/-- What a step is told: the result of a system call or the answer of `chooseNode`. -/
inductive Event
  | accept (succeeded : Bool)
  | choose (route : LoadBalancer.Route)
  | socket (succeeded : Bool)
  | connect (succeeded : Bool)
  | recv (i : Nat) (d : Direction) (result : Option Bytes)
  | send (i : Nat) (d : Direction) (result : Option Nat)

namespace Proxy

/-- Behind the call of `listen`. -/
def listening : Proxy := ⟨.accepting, [], 1, []⟩

def putThread (i : Nat) (d : Direction) (t : ForwardThread) (s : Proxy) : Proxy :=
  { s with connections := s.connections.modify i (Connection.putThread d t) }

/-- The steps of the listener and of the forwarding threads. A call on the descriptor `-1` fails.
With a connection type that assigns no `node_socket` the listener has no step behind a choice: it
would go on with an indeterminate descriptor. -/
inductive Step (config : LoadBalancerConfiguration) (s : Proxy) : Event → Proxy → Prop
  | acceptFails (h : s.pc = .accepting) : Step config s (.accept false) s
  | accepts (h : s.pc = .accepting) :
      Step config s (.accept true)
        { s with pc := .choosing s.opened, opened := s.opened + 1 }
  | declines {client : Nat} (h : s.pc = .choosing client) :
      Step config s (.choose .closeClient)
        { s with pc := .accepting, closed := s.closed ++ [client] }
  | chooses {client : Nat} (h : s.pc = .choosing client) (nodeId : Nat) (node : NodeConfiguration) :
      Step config s (.choose (.connectTo nodeId node)) { s with pc := .opening client }
  | socketFails {client : Nat} (h : s.pc = .opening client) (hType : config.nodeSocket.isSome) :
      Step config s (.socket false) { s with pc := .connecting client none }
  | socketOpens {client : Nat} (h : s.pc = .opening client) (hType : config.nodeSocket.isSome) :
      Step config s (.socket true)
        { s with pc := .connecting client (some s.opened), opened := s.opened + 1 }
  | connects {client : Nat} {nodeSocket : Option Nat} (h : s.pc = .connecting client nodeSocket)
      {succeeded : Bool} (hSocket : succeeded = true → nodeSocket.isSome) :
      -- both threads are started, whatever `connect` returned
      Step config s (.connect succeeded)
        { s with pc := .accepting
                 connections := s.connections ++
                   [⟨client, nodeSocket, succeeded, fun _ => .start⟩] }
  | recv {i : Nat} {conn : Connection} (hConn : s.connections[i]? = some conn) {d : Direction}
      (h : (conn.thread d).pc = .receiving) {result : Option Bytes}
      (hSocket : conn.fromSocket d = none → result = none) :
      Step config s (.recv i d result) (s.putThread i d ((conn.thread d).recv result))
  | send {i : Nat} {conn : Connection} (hConn : s.connections[i]? = some conn) {d : Direction}
      {buffer : Bytes} (h : (conn.thread d).pc = .sending buffer) {result : Option Nat}
      (hSocket : conn.toSocket d = none → result = none) :
      Step config s (.send i d result) (s.putThread i d ((conn.thread d).send buffer result))

/-- The sockets are taken care of: the loops of a connection were started behind a `connect` that
succeeded; behind both loops both sockets have been closed once; and only the listening socket, the
sockets of the connection being set up and those of running loops are open. -/
structure Kept (s : Proxy) : Prop where
  connected : ∀ conn ∈ s.connections, conn.connected = true
  closedOnce : ∀ conn ∈ s.connections, conn.Returned →
    ∀ fd ∈ conn.descriptors, s.closed.count fd = 1
  openOnly : ∀ fd < s.opened, fd ∉ s.closed → fd = 0 ∨ fd ∈ s.pc.descriptors ∨
    ∃ conn ∈ s.connections, ¬ conn.Returned ∧ fd ∈ conn.descriptors

/-! ## The places of a descriptor -/

/-- The control point of a thread, if there is such a connection. -/
def pcAt (s : Proxy) (i : Nat) (d : Direction) : Option ForwardPc :=
  s.connections[i]?.map fun conn => (conn.thread d).pc

/-- The descriptors of all connections. -/
def held (s : Proxy) : List Nat := s.connections.flatMap Connection.descriptors

/-- How often a descriptor has been given out, the listening socket apart. -/
def given (opened fd : Nat) : Nat := if 0 < fd ∧ fd < opened then 1 else 0

/-- What a run keeps: each descriptor behind the listening socket is closed once, or held by the
listener, or held by a connection; and the labels tell which `connect` failed and which loop has
returned. -/
structure Accounts (labels : List Event) (s : Proxy) : Prop where
  place : ∀ fd, s.closed.count fd + s.pc.descriptors.count fd + s.held.count fd = given s.opened fd
  opened : 0 < s.opened
  refused : (∃ conn ∈ s.connections, conn.connected = false) ↔ Event.connect false ∈ labels
  returned : ∀ i d, s.pcAt i d = some .returned ↔ Event.recv i d none ∈ labels

theorem given_succ {opened : Nat} (h : 0 < opened) (fd : Nat) :
    given (opened + 1) fd = given opened fd + [opened].count fd := by
  rw [given, given, List.count_singleton]
  simp only [beq_iff_eq]
  split <;> split <;> split <;> omega

theorem held_putThread (i : Nat) (d : Direction) (t : ForwardThread) (s : Proxy) :
    (s.putThread i d t).held = s.held := by
  simp only [held, putThread, List.flatMap_def]
  rw [map_modify_of_eq (Connection.putThread_descriptors d t)]

theorem connected_putThread (i : Nat) (d : Direction) (t : ForwardThread) (s : Proxy) :
    (s.putThread i d t).connections.map Connection.connected =
      s.connections.map Connection.connected :=
  map_modify_of_eq (Connection.putThread_connected d t) i s.connections

theorem pcAt_putThread {s : Proxy} {i : Nat} {conn : Connection}
    (hConn : s.connections[i]? = some conn) (d : Direction) (t : ForwardThread) (j : Nat)
    (e : Direction) :
    (s.putThread i d t).pcAt j e = if i = j ∧ d = e then some t.pc else s.pcAt j e := by
  simp only [pcAt, putThread, List.getElem?_modify]
  by_cases hi : i = j
  · subst hi
    by_cases hd : d = e
    · subst hd
      simp [hConn, Connection.putThread]
    · simp [hConn, Connection.putThread, hd, Function.update_of_ne (Ne.symm hd)]
  · simp [hi]

/-- A new connection has no loop that has returned. -/
theorem pcAt_append {s s' : Proxy} {conn : Connection}
    (hConn : s'.connections = s.connections ++ [conn]) (hStart : ∀ d, conn.thread d = .start)
    (j : Nat) (e : Direction) : s'.pcAt j e = some .returned ↔ s.pcAt j e = some .returned := by
  simp only [pcAt, hConn, List.getElem?_append]
  split
  · rfl
  · rename_i hj
    have hNone : s.connections[j]? = none := List.getElem?_eq_none (Nat.le_of_not_lt hj)
    rw [hNone]
    cases j - s.connections.length with
    | zero => simp [hStart, ForwardThread.start]
    | succ k => simp

theorem accounts_listening : Accounts [] listening where
  place := by
    intro fd
    have hNone : given 1 fd = 0 := if_neg (by omega)
    simp [listening, held, ListenerPc.descriptors, hNone]
  opened := Nat.one_pos
  refused := by simp [listening]
  returned := by simp [listening, pcAt]

/-- A step of the listener that leaves the connections alone. -/
theorem Accounts.keep {labels : List Event} {s s' : Proxy} {l : Event} (h : Accounts labels s)
    (hConn : s'.connections = s.connections)
    (hPlace : ∀ fd, s'.closed.count fd + s'.pc.descriptors.count fd + s.held.count fd =
      given s'.opened fd)
    (hOpened : s.opened ≤ s'.opened) (hConnect : l ≠ .connect false)
    (hRecv : ∀ i d, l ≠ .recv i d none) : Accounts (labels ++ [l]) s' where
  place := by
    rw [held, hConn]
    exact hPlace
  opened := h.opened.trans_le hOpened
  refused := by
    rw [hConn, h.refused]
    simp [hConnect.symm]
  returned := by
    intro i d
    have hPcAt : s'.pcAt i d = s.pcAt i d := by rw [pcAt, pcAt, hConn]
    rw [hPcAt, h.returned i d]
    simp [(hRecv i d).symm]

/-- A step of a forwarding thread. -/
theorem Accounts.thread {labels : List Event} {s : Proxy} {l : Event} (h : Accounts labels s)
    {i : Nat} {conn : Connection} (hConn : s.connections[i]? = some conn) {d : Direction}
    (hPc : (conn.thread d).pc ≠ .returned) (t : ForwardThread) (hConnect : l ≠ .connect false)
    (hRecv : ∀ j e, Event.recv j e none = l ↔ t.pc = .returned ∧ i = j ∧ d = e) :
    Accounts (labels ++ [l]) (s.putThread i d t) where
  place := by
    rw [held_putThread]
    exact h.place
  opened := h.opened
  refused := by
    have hMap := connected_putThread i d t s
    have hMem : ∀ s : Proxy, (∃ conn ∈ s.connections, conn.connected = false) ↔
        false ∈ s.connections.map Connection.connected := by
      intro s
      simp
    rw [hMem, hMap, ← hMem, h.refused]
    simp [hConnect.symm]
  returned := by
    intro j e
    rw [pcAt_putThread hConn, List.mem_append, List.mem_singleton, hRecv, ← h.returned j e]
    by_cases hSame : i = j ∧ d = e
    · obtain ⟨rfl, rfl⟩ := hSame
      have hNow : s.pcAt i d ≠ some .returned := by
        simpa [pcAt, hConn] using hPc
      simp [hNow]
    · simp [hSame]

theorem Accounts.step {config : LoadBalancerConfiguration} {labels : List Event} {s s' : Proxy}
    {l : Event} (h : Accounts labels s) (hStep : Step config s l s') :
    Accounts (labels ++ [l]) s' := by
  have hOpened := h.opened
  cases hStep with
  | acceptFails hPc => exact h.keep rfl h.place le_rfl (by simp) (by simp)
  | accepts hPc =>
    refine h.keep rfl ?_ (Nat.le_succ _) (by simp) (by simp)
    intro fd
    have hPlace := h.place fd
    simp only [hPc, ListenerPc.descriptors, List.count_nil, given_succ hOpened] at hPlace ⊢
    omega
  | declines hPc =>
    refine h.keep rfl ?_ le_rfl (by simp) (by simp)
    intro fd
    have hPlace := h.place fd
    simp only [hPc, ListenerPc.descriptors, List.count_append, List.count_nil] at hPlace ⊢
    omega
  | chooses hPc =>
    refine h.keep rfl ?_ le_rfl (by simp) (by simp)
    intro fd
    have hPlace := h.place fd
    rw [hPc] at hPlace
    exact hPlace
  | socketFails hPc =>
    refine h.keep rfl ?_ le_rfl (by simp) (by simp)
    intro fd
    have hPlace := h.place fd
    rw [hPc] at hPlace
    exact hPlace
  | @socketOpens client hPc =>
    refine h.keep rfl ?_ (Nat.le_succ _) (by simp) (by simp)
    intro fd
    have hPlace := h.place fd
    have hBoth : (client :: [s.opened]).count fd = [client].count fd + [s.opened].count fd := by
      rw [← List.count_append]
      rfl
    simp only [hPc, ListenerPc.descriptors, Option.toList_some, hBoth, given_succ hOpened]
      at hPlace ⊢
    omega
  | @connects client nodeSocket hPc succeeded hSocket =>
    refine ⟨?_, hOpened, ?_, ?_⟩
    · -- the listener hands its descriptors to the new connection
      intro fd
      have hPlace := h.place fd
      simp only [hPc, held, List.flatMap_append, List.count_append, List.flatMap_singleton,
        Connection.descriptors, ListenerPc.descriptors, List.count_nil] at hPlace ⊢
      omega
    · rw [List.mem_append, ← h.refused]
      cases succeeded with
      | true => simp [or_and_right, exists_or]
      | false => simp
    · intro i d
      rw [pcAt_append rfl (fun _ => rfl), h.returned i d]
      simp
  | recv hConn hPc hSocket =>
    rename_i result
    refine h.thread hConn (by simp [hPc]) _ (by simp) ?_
    intro j e
    cases result with
    | none => simp [ForwardThread.recv, eq_comm]
    | some buffer => simp [ForwardThread.recv]
  | send hConn hPc hSocket =>
    exact h.thread hConn (by simp [hPc]) _ (by simp) (by simp [ForwardThread.send])

/-! ## Every run -/

theorem accounts_of_trace {config : LoadBalancerConfiguration} {labels : List Event} {s : Proxy}
    (hRun : Trace (Step config) listening labels s) : Accounts labels s :=
  hRun.invariant accounts_listening fun _ _ _ _ h hStep => h.step hStep

/-- A descriptor that a connection holds has not been closed. -/
theorem Accounts.not_closed {labels : List Event} {s : Proxy} (h : Accounts labels s)
    {conn : Connection} (hConn : conn ∈ s.connections) {fd : Nat} (hFd : fd ∈ conn.descriptors) :
    s.closed.count fd = 0 := by
  have hHeld : 0 < s.held.count fd :=
    List.count_pos_iff.mpr (List.mem_flatMap.mpr ⟨conn, hConn, hFd⟩)
  have hPlace := h.place fd
  have hOne : given s.opened fd ≤ 1 := by
    unfold given
    split <;> omega
  omega

/-- A connection ends when both of its loops have seen the end. -/
theorem Accounts.returned_iff {labels : List Event} {s : Proxy} (h : Accounts labels s) (i : Nat) :
    (∀ d, Event.recv i d none ∈ labels) ↔
      ∃ conn, s.connections[i]? = some conn ∧ conn.Returned := by
  constructor
  · intro hAll
    have hFirst := (h.returned i .clientToNode).mpr (hAll _)
    obtain ⟨conn, hConn, -⟩ := Option.map_eq_some_iff.mp hFirst
    refine ⟨conn, hConn, ?_⟩
    intro d
    have hPc := (h.returned i d).mpr (hAll d)
    simpa [pcAt, hConn] using hPc
  · rintro ⟨conn, hConn, hReturned⟩ d
    apply (h.returned i d).mp
    simp [pcAt, hConn, hReturned d]

/-- **The sockets of a run.** In every run of the listener and its threads, the sockets are taken
care of exactly when no `connect` has failed and on no connection `recv` has ended both loops. -/
theorem kept_iff {config : LoadBalancerConfiguration} {labels : List Event} {s : Proxy}
    (hRun : Trace (Step config) listening labels s) :
    s.Kept ↔ Event.connect false ∉ labels ∧ ∀ i, ¬ ∀ d, Event.recv i d none ∈ labels := by
  have hInv := accounts_of_trace hRun
  constructor
  · intro hKept
    constructor
    · intro hRefused
      obtain ⟨conn, hConn, hFalse⟩ := hInv.refused.mpr hRefused
      rw [hKept.connected conn hConn] at hFalse
      cases hFalse
    · intro i hEnded
      obtain ⟨conn, hConn, hReturned⟩ := (hInv.returned_iff i).mp hEnded
      have hMem := List.mem_of_getElem? hConn
      have hOnce := hKept.closedOnce conn hMem hReturned conn.client List.mem_cons_self
      rw [hInv.not_closed hMem List.mem_cons_self] at hOnce
      cases hOnce
  · rintro ⟨hNotRefused, hNotEnded⟩
    have hRunning : ∀ conn ∈ s.connections, ¬ conn.Returned := by
      intro conn hConn hReturned
      obtain ⟨i, hi⟩ := List.mem_iff_getElem?.mp hConn
      exact hNotEnded i ((hInv.returned_iff i).mpr ⟨conn, hi, hReturned⟩)
    refine ⟨?_, ?_, ?_⟩
    · intro conn hConn
      by_contra hFalse
      exact hNotRefused (hInv.refused.mp ⟨conn, hConn, by simpa using hFalse⟩)
    · intro conn hConn hReturned
      exact absurd hReturned (hRunning conn hConn)
    · intro fd hOpened hNotClosed
      rcases Nat.eq_zero_or_pos fd with hZero | hPos
      · exact Or.inl hZero
      · have hPlace := hInv.place fd
        rw [List.count_eq_zero.mpr hNotClosed, given, if_pos ⟨hPos, hOpened⟩] at hPlace
        by_cases hPc : fd ∈ s.pc.descriptors
        · exact Or.inr (Or.inl hPc)
        · rw [List.count_eq_zero.mpr hPc] at hPlace
          have hHeld : 0 < s.held.count fd := by omega
          obtain ⟨conn, hConn, hFd⟩ := List.mem_flatMap.mp (List.count_pos_iff.mp hHeld)
          exact Or.inr (Or.inr ⟨conn, hConn, hRunning conn hConn, hFd⟩)

/-- A first client, connected to its node. -/
def oneConnection : Proxy where
  pc := .accepting
  connections := [⟨1, some 2, true, fun _ => .start⟩]
  opened := 3
  closed := []

theorem oneConnection_trace (node : NodeConfiguration) :
    Trace (Step (testConfig "ROUND_ROBIN")) listening
      [.accept true, .choose (.connectTo 0 node), .socket true, .connect true] oneConnection := by
  have hAccept : Step (testConfig "ROUND_ROBIN") listening (.accept true)
      ⟨.choosing 1, [], 2, []⟩ := .accepts rfl
  have hChoose : Step (testConfig "ROUND_ROBIN") ⟨.choosing 1, [], 2, []⟩
      (.choose (.connectTo 0 node)) ⟨.opening 1, [], 2, []⟩ := .chooses rfl 0 node
  have hSocket : Step (testConfig "ROUND_ROBIN") ⟨.opening 1, [], 2, []⟩ (.socket true)
      ⟨.connecting 1 (some 2), [], 3, []⟩ := .socketOpens rfl rfl
  have hConnect : Step (testConfig "ROUND_ROBIN") ⟨.connecting 1 (some 2), [], 3, []⟩
      (.connect true) oneConnection := .connects rfl (fun _ => rfl)
  exact (((Trace.refl.snoc hAccept).snoc hChoose).snoc hSocket).snoc hConnect

theorem kept_iff_oneConnection :
    oneConnection.Kept ↔
      Event.connect false ∉ [.accept true, .choose (.connectTo 0 default), .socket true,
        .connect true] ∧
      ∀ i, ¬ ∀ d, Event.recv i d none ∈ [.accept true, .choose (.connectTo 0 default),
        .socket true, .connect true] :=
  kept_iff (oneConnection_trace default)

/-- Both sides of the connection end, and neither socket is closed. -/
theorem not_kept_of_returned :
    ¬ ∀ (config : LoadBalancerConfiguration) (labels : List Event) (s : Proxy),
      Trace (Step config) listening labels s → s.Kept := by
  intro h
  let conn : Connection := ⟨1, some 2, true, fun _ => .start⟩
  let conn' : Connection := conn.putThread .clientToNode (ForwardThread.start.recv none)
  let half : Proxy := oneConnection.putThread 0 .clientToNode (ForwardThread.start.recv none)
  let ended : Proxy := half.putThread 0 .nodeToClient (ForwardThread.start.recv none)
  have hConn : oneConnection.connections[0]? = some conn := rfl
  have hClient : Step (testConfig "ROUND_ROBIN") oneConnection (.recv 0 .clientToNode none) half :=
    .recv hConn rfl (fun _ => rfl)
  have hConn' : half.connections[0]? = some conn' := rfl
  have hNode : Step (testConfig "ROUND_ROBIN") half (.recv 0 .nodeToClient none) ended :=
    .recv hConn' rfl (fun _ => rfl)
  have hKept := h _ _ ended (((oneConnection_trace default).snoc hClient).snoc hNode)
  have hOnce := hKept.closedOnce _ List.mem_cons_self (fun d => by cases d <;> rfl) 1
    List.mem_cons_self
  cases hOnce

end Proxy

end Balancer
