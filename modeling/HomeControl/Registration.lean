import HomeControl.Lib.LinkedList
import HomeControl.Shutdown
import Mathlib.Data.List.Nodup

/-!
# Registration

The modules are static nodes, and `add_interface_to_ctrl_list` links them in place.  `main`
then walks them twice: the loop that calls each `init` stops at null and counts the nodes,
and the loop that creates a thread for each `get` runs as often as the first one counted.
Neither an `init` nor a thread writes to a node.

* `ControlHeap.Linked` is the invariant of registration: the nodes registered so far, the
  last one first, are the list behind the head.
* `ControlHeap.mainLoops_eq` is what the two loops call, on any list in any heap.
* `registers` puts both together, for every heap and every sequence of nodes.
* `holds_register` and `calls_of_program` connect the heap to the list of modules and to
  the step system of `main`.
-/

namespace HomeControl

open LinkedList StepSystem Threads

/-! ## The nodes -/

/-- An address, of a node or of code. -/
abbrev Addr := Nat

/-- `struct control`.  A pointer is an address, or `none` for the null pointer. -/
structure ControlNode where
  controlName : CString
  init : Option Addr
  final : Option Addr
  get : Option Addr
  set : Option Addr
  next : Option Addr
  deriving DecidableEq, Repr

abbrev ControlHeap := Addr → Option ControlNode

/-- `control_interface->next = phead`, which needs a node at the address. -/
def ControlHeap.setNext (h : ControlHeap) (a : Addr) (next : Option Addr) : Option ControlHeap :=
  (h a).map fun c => Function.update h a (some { c with next })

/-- `add_interface_to_ctrl_list`, with the new head. -/
def ControlHeap.addInterfaceToCtrlList (h : ControlHeap) (phead : Option Addr)
    (controlInterface : Addr) : Option (ControlHeap × Option Addr) :=
  match phead with
  | none => some (h, some controlInterface)
  | some _ => (h.setNext controlInterface phead).map fun h' => (h', some controlInterface)

/-- The calls of `add_interface_to_ctrl_list`, the first of them with a null head. -/
def ControlHeap.register (h : ControlHeap) (nodes : List Addr) :
    Option (ControlHeap × Option Addr) :=
  nodes.foldlM (fun s a => s.1.addInterfaceToCtrlList s.2 a) (h, none)

/-! ## The two loops of `main` -/

/-- What the two loops call: the `init` of a node, and `pthread_create` with `&tid[i]` and
the `get` of a node. -/
inductive MainCall where
  | init (node : Addr)
  | pthreadCreate (i : Nat) (node : Addr)
  deriving DecidableEq, Repr

/-- `if (NULL != pointer->init) pointer->init();` -/
def callInit (_ : Nat) (a : Addr) (c : ControlNode) : Option MainCall :=
  c.init.map fun _ => .init a

/-- `if (NULL != pointer->get) pthread_create(&tid[i], ..., pointer->get, ...);` -/
def callGet (i : Nat) (a : Addr) (c : ControlNode) : Option MainCall :=
  c.get.map fun _ => .pthreadCreate i a

/-- One turn of a loop: the call, if there is one, and the counter goes up, which is
`node_num` in the first loop and `i` in the second. -/
def turn (call : Nat → Addr → ControlNode → Option MainCall) (s : Nat × List MainCall)
    (a : Addr) (c : ControlNode) : Nat × List MainCall :=
  (s.1 + 1, s.2 ++ (call s.1 a c).toList)

/-- What is left after the two loops, with the calls in their order. -/
structure LoopsEnd where
  nodeNum : Nat
  pointer : Option Addr
  calls : List MainCall
  deriving DecidableEq, Repr

/-- The first two loops of `main`, with a bound on the turns of the first. -/
def ControlHeap.mainLoops (h : ControlHeap) (fuel : Nat) (ctrlPhead : Option Addr) :
    Except Fault LoopsEnd := do
  let (nodeNum, calls) ← whileNext h ControlNode.next (turn callInit) fuel ctrlPhead (0, [])
  let (pointer, _, calls) ← forNext h ControlNode.next (turn callGet) nodeNum ctrlPhead (0, calls)
  return { nodeNum, pointer, calls }

variable {h : ControlHeap} {xs : List Addr} {s : ControlHeap × Option Addr}

/-! ## What registration keeps -/

/-- From the heap `h`, the nodes `xs` have been registered, the last of them first. -/
structure ControlHeap.Linked (h : ControlHeap) (xs : List Addr)
    (s : ControlHeap × Option Addr) : Prop where
  visits : Lists s.1 ControlNode.next s.2 xs
  others : ∀ a, a ∉ xs → s.1 a = h a
  fields : ∀ a ∈ xs, ∃ c next, h a = some c ∧ s.1 a = some { c with next }

theorem ControlHeap.linked_nil (h : ControlHeap) : h.Linked [] (h, none) where
  visits := .nil
  others _ _ := rfl
  fields _ ha := absurd ha List.not_mem_nil

/-- On a node whose link is null, the two branches do the same: the link becomes the old
head, and the node is the new head. -/
theorem ControlHeap.addInterfaceToCtrlList_eq {a : Addr} {c : ControlNode} (hc : h a = some c)
    (hnull : c.next = none) (phead : Option Addr) :
    h.addInterfaceToCtrlList phead a =
      some (Function.update h a (some { c with next := phead }), some a) := by
  cases phead with
  | none =>
    have hself : Function.update h a (some { c with next := none }) = h := by
      rw [← hnull, ← hc]
      exact Function.update_eq_self a h
    rw [hself]
    rfl
  | some p =>
    show (h.setNext a (some p)).map _ = _
    rw [setNext, hc]
    rfl

/-- One registration. -/
theorem ControlHeap.Linked.add (hlinked : h.Linked xs s) {a : Addr} (ha : a ∉ xs)
    (hnull : ∃ c, h a = some c ∧ c.next = none) :
    ∃ s', s.1.addInterfaceToCtrlList s.2 a = some s' ∧ h.Linked (a :: xs) s' := by
  obtain ⟨c, hc, hnext⟩ := hnull
  have hnode : s.1 a = some c := (hlinked.others a ha).trans hc
  refine ⟨_, ControlHeap.addInterfaceToCtrlList_eq hnode hnext s.2, ?_, fun b hb => ?_,
    fun b hb => ?_⟩
  · exact hlinked.visits.push ha rfl
  · obtain ⟨hne, hb⟩ := List.ne_and_not_mem_of_not_mem_cons hb
    exact (Function.update_of_ne hne _ _).trans (hlinked.others b hb)
  · by_cases hba : b = a
    · subst hba
      exact ⟨c, s.2, hc, Function.update_self ..⟩
    · obtain ⟨d, next, hd, hfields⟩ := hlinked.fields b ((List.mem_cons.mp hb).resolve_left hba)
      exact ⟨d, next, hd, (Function.update_of_ne hba _ _).trans hfields⟩

/-- Any number of registrations, of nodes that are not yet in the list. -/
theorem ControlHeap.Linked.register (hlinked : h.Linked xs s) {nodes : List Addr}
    (hnodup : nodes.Nodup) (hnew : ∀ a ∈ nodes, a ∉ xs)
    (hnull : ∀ a ∈ nodes, ∃ c, h a = some c ∧ c.next = none) :
    ∃ s', nodes.foldlM (fun s a => s.1.addInterfaceToCtrlList s.2 a) s = some s' ∧
      h.Linked (nodes.reverse ++ xs) s' := by
  induction nodes generalizing xs s with
  | nil => exact ⟨s, rfl, hlinked⟩
  | cons a nodes ih =>
    obtain ⟨hnot, hnodup⟩ := List.nodup_cons.mp hnodup
    obtain ⟨s₁, hadd, hlinked₁⟩ :=
      hlinked.add (hnew a List.mem_cons_self) (hnull a List.mem_cons_self)
    have hnew₁ : ∀ b ∈ nodes, b ∉ a :: xs := by
      intro b hb hmem
      rcases List.mem_cons.mp hmem with rfl | hmem
      · exact hnot hb
      · exact hnew b (List.mem_cons_of_mem _ hb) hmem
    obtain ⟨s', hrest, hlinked'⟩ :=
      ih hlinked₁ hnodup hnew₁ fun b hb => hnull b (List.mem_cons_of_mem _ hb)
    refine ⟨s', ?_, ?_⟩
    · rw [List.foldlM_cons, hadd]
      exact hrest
    · rw [List.reverse_cons, List.append_assoc]
      exact hlinked'

theorem ControlHeap.linked_register {nodes : List Addr} (hdistinct : nodes.Nodup)
    (hnull : ∀ a ∈ nodes, ∃ c, h a = some c ∧ c.next = none) :
    ∃ s, h.register nodes = some s ∧ h.Linked nodes.reverse s := by
  obtain ⟨s, hs, hlinked⟩ :=
    h.linked_nil.register hdistinct (fun _ _ => List.not_mem_nil) hnull
  rw [List.append_nil] at hlinked
  exact ⟨s, hs, hlinked⟩

/-! ## What the loops call -/

/-- The calls of one loop for the nodes `xs`, with the counter at `i` before the first. -/
def ControlHeap.called (h : ControlHeap) (call : Nat → Addr → ControlNode → Option MainCall)
    (i : Nat) (xs : List Addr) : List MainCall :=
  (xs.zipIdx i).filterMap fun p => (h p.1).bind (call p.2 p.1)

theorem ControlHeap.called_cons (call : Nat → Addr → ControlNode → Option MainCall) (i : Nat)
    (a : Addr) (xs : List Addr) :
    h.called call i (a :: xs) = ((h a).bind (call i a)).toList ++ h.called call (i + 1) xs := by
  rw [called, List.zipIdx_cons, List.filterMap_cons]
  cases (h a).bind (call i a) with
  | none => rfl
  | some m => rfl

/-- A loop over nodes counts them, and adds what it calls. -/
theorem ControlHeap.visit_turn (call : Nat → Addr → ControlNode → Option MainCall)
    (hnodes : ∀ a ∈ xs, (h a).isSome = true) (i : Nat) (calls : List MainCall) :
    visit h (turn call) (i, calls) xs = (i + xs.length, calls ++ h.called call i xs) := by
  induction xs generalizing i calls with
  | nil => exact Prod.ext rfl (List.append_nil calls).symm
  | cons a xs ih =>
    obtain ⟨c, hc⟩ := Option.isSome_iff_exists.mp (hnodes a List.mem_cons_self)
    have hrest := ih (fun b hb => hnodes b (List.mem_cons_of_mem _ hb)) (i + 1)
      (calls ++ (call i a c).toList)
    rw [visit_cons hc, ControlHeap.called_cons, hc]
    refine hrest.trans (Prod.ext ?_ ?_)
    · show i + 1 + xs.length = i + (a :: xs).length
      rw [List.length_cons]
      omega
    · exact List.append_assoc ..

/-- On a list, the first loop ends, and the second one ends at null with no null pointer
dereferenced; the calls are those of the first loop, and then those of the second. -/
theorem ControlHeap.mainLoops_eq {head : Option Addr} (hlists : Lists h ControlNode.next head xs)
    {fuel : Nat} (hfuel : xs.length ≤ fuel) :
    h.mainLoops fuel head =
      .ok ⟨xs.length, none, h.called callInit 0 xs ++ h.called callGet 0 xs⟩ := by
  have hnodes := hlists.isSome
  have hinit : whileNext h ControlNode.next (turn callInit) fuel head (0, []) =
      .ok (xs.length, h.called callInit 0 xs) := by
    rw [whileNext_eq hlists _ hfuel, ControlHeap.visit_turn _ hnodes, Nat.zero_add,
      List.nil_append]
  have hget : forNext h ControlNode.next (turn callGet) xs.length head
      (0, h.called callInit 0 xs) =
      .ok (none, xs.length, h.called callInit 0 xs ++ h.called callGet 0 xs) := by
    rw [forNext_eq hlists, ControlHeap.visit_turn _ hnodes, Nat.zero_add]
  rw [ControlHeap.mainLoops, hinit]
  show (forNext h ControlNode.next (turn callGet) xs.length head _ >>= _) = _
  rw [hget]
  rfl

/-- How often a loop makes a call of some kind, where that depends on the node only. -/
theorem ControlHeap.countP_called {call : Nat → Addr → ControlNode → Option MainCall}
    {kind : MainCall → Bool} {test : Addr → ControlNode → Bool}
    (htest : ∀ i a c, (call i a c).any kind = test a c) (i : Nat) (xs : List Addr) :
    (h.called call i xs).countP kind = xs.countP fun a => (h a).any (test a) := by
  induction xs generalizing i with
  | nil => rfl
  | cons a xs ih =>
    rw [ControlHeap.called_cons, List.countP_append, ih, List.countP_cons, Nat.add_comm]
    congr 1
    cases hc : h a with
    | none => rfl
    | some c =>
      show (call i a c).toList.countP kind = if test a c = true then 1 else 0
      rw [← htest i a c]
      cases call i a c with
      | none => rfl
      | some m => exact List.countP_singleton ..

/-- Over distinct nodes, a loop makes a call of a kind that belongs to one node once, if it
makes it for that node. -/
theorem ControlHeap.countP_called_once {call : Nat → Addr → ControlNode → Option MainCall}
    {kind : MainCall → Bool} {b : Addr} {test : ControlNode → Bool}
    (htest : ∀ i a c, (call i a c).any kind = (a == b && test c)) (hdistinct : xs.Nodup) :
    (h.called call 0 xs).countP kind = if b ∈ xs ∧ (h b).any test = true then 1 else 0 := by
  have hcount : (h.called call 0 xs).countP kind =
      xs.countP fun a => a == b && (h b).any test := by
    rw [ControlHeap.countP_called htest]
    refine List.countP_congr fun a _ => ?_
    by_cases hab : a = b
    · subst hab
      simp
    · rw [beq_eq_false_iff_ne.mpr hab]
      cases h a with
      | none => rfl
      | some c => rfl
  rw [hcount]
  cases (h b).any test with
  | false => simp
  | true =>
    simp only [Bool.and_true, and_true]
    exact hdistinct.count

theorem ControlHeap.mem_called {call : Nat → Addr → ControlNode → Option MainCall}
    {m : MainCall} : m ∈ h.called call 0 xs ↔
      ∃ i a c, xs[i]? = some a ∧ h a = some c ∧ call i a c = some m := by
  constructor
  · intro hm
    obtain ⟨⟨a, i⟩, hp, hcall⟩ := List.mem_filterMap.mp hm
    obtain ⟨c, hc, hm⟩ := Option.bind_eq_some_iff.mp hcall
    exact ⟨i, a, c, List.mk_mem_zipIdx_iff_getElem?.mp hp, hc, hm⟩
  · rintro ⟨i, a, c, hi, hc, hm⟩
    refine List.mem_filterMap.mpr ⟨(a, i), List.mk_mem_zipIdx_iff_getElem?.mpr hi, ?_⟩
    exact Option.bind_eq_some_iff.mpr ⟨c, hc, hm⟩

/-- The call creates a thread for this node. -/
def MainCall.creates (a : Addr) : MainCall → Bool
  | .init _ => false
  | .pthreadCreate _ b => b == a

/-- The calls for the nodes `xs`: each `init` that is not null once, then each `get` that is
not null once, with the place of its node in `tid`. -/
structure ControlHeap.StartsEach (h : ControlHeap) (xs : List Addr) (calls : List MainCall) :
    Prop where
  inits : ∀ a, calls.count (.init a) =
    if a ∈ xs ∧ (h a).any (·.init.isSome) = true then 1 else 0
  gets : ∀ a, calls.countP (MainCall.creates a) =
    if a ∈ xs ∧ (h a).any (·.get.isSome) = true then 1 else 0
  order : ∃ inits gets, calls = inits ++ gets ∧ (∀ m ∈ inits, ∃ a, m = .init a) ∧
    ∀ m ∈ gets, ∃ i a, m = .pthreadCreate i a ∧ xs[i]? = some a

theorem ControlHeap.startsEach_called (h : ControlHeap) (hdistinct : xs.Nodup) :
    h.StartsEach xs (h.called callInit 0 xs ++ h.called callGet 0 xs) := by
  have hinits : ∀ m ∈ h.called callInit 0 xs, ∃ a, m = .init a := by
    intro m hm
    obtain ⟨i, a, c, -, -, hcall⟩ := ControlHeap.mem_called.mp hm
    obtain ⟨f, -, rfl⟩ := Option.map_eq_some_iff.mp hcall
    exact ⟨a, rfl⟩
  have hgets : ∀ m ∈ h.called callGet 0 xs, ∃ i a, m = .pthreadCreate i a ∧
      xs[i]? = some a := by
    intro m hm
    obtain ⟨i, a, c, hi, -, hcall⟩ := ControlHeap.mem_called.mp hm
    obtain ⟨f, -, rfl⟩ := Option.map_eq_some_iff.mp hcall
    exact ⟨i, a, rfl, hi⟩
  refine ⟨fun a => ?_, fun a => ?_, _, _, rfl, hinits, hgets⟩
  · have hnone : (h.called callGet 0 xs).count (.init a) = 0 := by
      refine List.count_eq_zero.mpr fun hm => ?_
      obtain ⟨i, b, hne, -⟩ := hgets _ hm
      cases hne
    rw [List.count_append, hnone, Nat.add_zero]
    refine ControlHeap.countP_called_once (fun i b c => ?_) hdistinct
    cases hinit : c.init with
    | none => simp [callInit, hinit]
    | some f => simp [callInit, hinit]
  · have hnone : (h.called callInit 0 xs).countP (MainCall.creates a) = 0 := by
      refine List.countP_eq_zero.mpr fun m hm => ?_
      obtain ⟨b, rfl⟩ := hinits m hm
      exact Bool.false_ne_true
    rw [List.countP_append, hnone, Nat.zero_add]
    refine ControlHeap.countP_called_once (fun i b c => ?_) hdistinct
    cases hget : c.get with
    | none => simp [callGet, hget]
    | some f => simp [callGet, hget, MainCall.creates]

/-! ## The main result -/

/-- What the registration of `nodes` leads to: the list behind the head has each of them
once, the last one first, and `main` counts them, and starts each. -/
structure ControlHeap.Registered (h : ControlHeap) (nodes : List Addr)
    (s : ControlHeap × Option Addr) : Prop extends h.Linked nodes.reverse s where
  once : nodes.reverse.Nodup
  started : ∀ fuel, nodes.length ≤ fuel → ∃ calls,
    s.1.mainLoops fuel s.2 = .ok ⟨nodes.length, none, calls⟩ ∧
      s.1.StartsEach nodes.reverse calls

/-- For every heap, and every sequence of distinct nodes whose links are null. -/
theorem registered (h : ControlHeap) (nodes : List Addr) (hdistinct : nodes.Nodup)
    (hnull : ∀ a ∈ nodes, ∃ c, h a = some c ∧ c.next = none) :
    ∃ s, h.register nodes = some s ∧ h.Registered nodes s := by
  obtain ⟨s, hs, hlinked⟩ := ControlHeap.linked_register hdistinct hnull
  have honce : nodes.reverse.Nodup := List.nodup_reverse.mpr hdistinct
  refine ⟨s, hs, hlinked, honce, fun fuel hfuel => ⟨_, ?_, s.1.startsEach_called honce⟩⟩
  rw [← List.length_reverse] at hfuel ⊢
  exact ControlHeap.mainLoops_eq hlinked.visits hfuel

/-- `voice_control`, `socket_control`, `smoke_control` and `receive_control`, with their
functions at some addresses. -/
def shippedNodes : ControlHeap
  | 1 => some ⟨ascii "voice", some 10, some 11, some 12, some 13, none⟩
  | 2 => some ⟨ascii "socket", some 20, some 21, some 22, some 23, none⟩
  | 3 => some ⟨ascii "smoke", some 30, some 31, some 32, some 33, none⟩
  | 4 => some ⟨ascii "receive", some 40, some 41, some 42, some 43, none⟩
  | _ => none

theorem shippedNodes_next : ∀ a ∈ [1, 2, 3, 4], ∃ c, shippedNodes a = some c ∧ c.next = none := by
  intro a ha
  simp only [List.mem_cons, List.not_mem_nil, or_false] at ha
  rcases ha with rfl | rfl | rfl | rfl
  · exact ⟨_, rfl, rfl⟩
  · exact ⟨_, rfl, rfl⟩
  · exact ⟨_, rfl, rfl⟩
  · exact ⟨_, rfl, rfl⟩

theorem registered_shippedNodes : ∃ s, shippedNodes.register [1, 2, 3, 4] = some s ∧
    shippedNodes.Registered [1, 2, 3, 4] s :=
  registered shippedNodes [1, 2, 3, 4] (by decide) shippedNodes_next

/-! ## The list of modules -/

/-- The code behind the function pointers. -/
structure Code where
  routine : Addr → Routine
  setRoutine : Addr → SetRoutine

/-- The module of a node. -/
structure ControlNode.IsModule (code : Code) (c : ControlNode) (m : ThreadModule) : Prop where
  controlName : c.controlName = m.controlName
  set : c.set.map code.setRoutine = some m.set
  init : c.init.isSome = m.init
  final : c.final.isSome = m.final
  get : c.get.map code.routine = m.get

/-- The nodes are those of the modules, in this order. -/
def ControlHeap.Holds (h : ControlHeap) (code : Code) (xs : List Addr)
    (mods : List ThreadModule) : Prop :=
  List.Forall₂ (fun a m => ∃ c, h a = some c ∧ c.IsModule code m) xs mods

variable {code : Code} {mods : List ThreadModule}

/-- Registration writes links only. -/
theorem ControlHeap.Linked.node (hlinked : h.Linked xs s) {a : Addr} {c : ControlNode}
    (hc : h a = some c) : ∃ next, s.1 a = some { c with next } := by
  by_cases ha : a ∈ xs
  · obtain ⟨d, next, hd, hnode⟩ := hlinked.fields a ha
    obtain rfl := Option.some.inj (hc.symm.trans hd)
    exact ⟨next, hnode⟩
  · exact ⟨c.next, (hlinked.others a ha).trans hc⟩

/-- Registration in the heap is registration in the list of modules. -/
theorem holds_register {nodes : List Addr} (hdistinct : nodes.Nodup)
    (hnull : ∀ a ∈ nodes, ∃ c, h a = some c ∧ c.next = none) (hheld : h.Holds code nodes mods) :
    ∃ s, h.register nodes = some s ∧ Lists s.1 ControlNode.next s.2 nodes.reverse ∧
      s.1.Holds code nodes.reverse (mods.foldl addInterfaceToCtrlList []) := by
  obtain ⟨s, hs, hlinked⟩ := ControlHeap.linked_register hdistinct hnull
  have hkept : s.1.Holds code nodes mods := by
    refine hheld.imp fun a m hm => ?_
    obtain ⟨c, hc, hmodule⟩ := hm
    obtain ⟨next, hnode⟩ := hlinked.node hc
    exact ⟨_, hnode, hmodule.1, hmodule.2, hmodule.3, hmodule.4, hmodule.5⟩
  have hfold : mods.foldl addInterfaceToCtrlList [] = mods.reverse :=
    List.foldl_flip_cons_eq_append'.trans (List.append_nil _)
  refine ⟨s, hs, hlinked.visits, ?_⟩
  rw [hfold]
  exact List.forall₂_reverse_iff.mpr hkept

/-- The code of the four modules. -/
def shippedCode : Code where
  routine
    | 12 => voiceGet
    | 22 => tcpsocketGet
    | 32 => smokeGet
    | _ => receiveGet
  setRoutine
    | 13 => .voiceSet
    | 23 => .tcpsocketSet
    | 33 => .smokeSet
    | _ => .receiveSet

/-- The list of the program as it is. -/
example : ∃ s, shippedNodes.register [1, 2, 3, 4] = some s ∧
    Lists s.1 ControlNode.next s.2 [4, 3, 2, 1] ∧
    s.1.Holds shippedCode [4, 3, 2, 1] shippedModules := by
  refine holds_register (by decide) shippedNodes_next
    (.cons ?_ (.cons ?_ (.cons ?_ (.cons ?_ .nil))))
  · exact ⟨_, rfl, rfl, rfl, rfl, rfl, rfl⟩
  · exact ⟨_, rfl, rfl, rfl, rfl, rfl, rfl⟩
  · exact ⟨_, rfl, rfl, rfl, rfl, rfl, rfl⟩
  · exact ⟨_, rfl, rfl, rfl, rfl, rfl, rfl⟩

/-! ## The calls of `program` -/

variable {t t' : MainState}

/-- A step of `main` counts a module and calls its `init`, or it does neither. -/
theorem MainState.Takes.inits {ℓ : MainLabel} (ht : t.Takes mods ℓ t') :
    (t'.inits = t.inits ∧ t'.nodeNum = t.nodeNum) ∨
      ∃ i m, t.place = .initializing ∧ t.pointer = some i ∧ mods[i]? = some m ∧
        t'.inits = (if m.init then i :: t.inits else t.inits) ∧ t'.nodeNum = t.nodeNum + 1 := by
  cases ht with
  | init hplace hpointer hm => exact .inr ⟨_, _, hplace, hpointer, hm, rfl, rfl⟩
  | _ => exact .inl ⟨rfl, rfl⟩

/-- In every run, the `init`s called are those of the modules counted, in their order. -/
theorem inits_of_program (ht : (program mods).Reachable t) :
    t.inits.reverse = (List.range t.nodeNum).filter fun i => mods[i]?.any ThreadModule.init := by
  refine ht.invariant' (fun t => t.inits.reverse =
    (List.range t.nodeNum).filter fun i => mods[i]?.any ThreadModule.init) rfl ?_
  intro t ℓ t' hreach ih _ hstep
  rcases (MainState.takes_of_step hstep).inits with
    ⟨hinits, hnum⟩ | ⟨i, m, hplace, hi, hm, hinits, hnum⟩
  · rw [hinits, hnum]
    exact ih
  · have hpointer := ((tracked_of_program hreach).walked_at hplace).1
    obtain ⟨rfl, -⟩ := node_eq_some_iff.mp (hpointer.symm.trans hi)
    rw [hinits, hnum, List.range_succ, List.filter_append, ← ih, List.filter_singleton, hm,
      Option.any_some]
    cases m.init with
    | false => exact (List.append_nil _).symm
    | true => exact List.reverse_cons

theorem count_inits_of_program (ht : (program mods).Reachable t) (i : Nat) :
    t.inits.count i =
      if i < t.nodeNum ∧ mods[i]?.any ThreadModule.init = true then 1 else 0 := by
  rw [← List.count_reverse, inits_of_program ht, (List.nodup_range.filter _).count]
  refine if_congr ?_ rfl rfl
  rw [List.mem_filter, List.mem_range]

theorem ControlHeap.Holds.node (hheld : h.Holds code xs mods) {i : Nat} {a : Addr}
    (hi : xs[i]? = some a) :
    ∃ c m, h a = some c ∧ mods[i]? = some m ∧ c.IsModule code m := by
  induction hheld generalizing i with
  | nil => cases hi
  | @cons b m xs mods hnode _ ih =>
    cases i with
    | zero =>
      obtain rfl := Option.some.inj hi
      obtain ⟨c, hc, hmodule⟩ := hnode
      exact ⟨c, m, hc, rfl, hmodule⟩
    | succ i => exact ih hi

/-- On a list of nodes, the two loops make the calls of any run of the system that has
counted all of its modules. -/
theorem calls_of_program {head : Option Addr} (hlists : Lists h ControlNode.next head xs)
    (hdistinct : xs.Nodup) (hheld : h.Holds code xs mods) (ht : (program mods).Reachable t)
    (hnum : t.nodeNum = mods.length) {fuel : Nat} (hfuel : xs.length ≤ fuel) :
    ∃ calls, h.mainLoops fuel head = .ok ⟨t.nodeNum, none, calls⟩ ∧
      ∀ i a, xs[i]? = some a → calls.count (.init a) = t.inits.count i ∧
        ∀ thread, t.tid i = some thread → .pthreadCreate i a ∈ calls := by
  have hlength : t.nodeNum = xs.length := hnum.trans hheld.length_eq.symm
  refine ⟨h.called callInit 0 xs ++ h.called callGet 0 xs, ?_, fun i a hi => ⟨?_, ?_⟩⟩
  · rw [hlength]
    exact ControlHeap.mainLoops_eq hlists hfuel
  · obtain ⟨c, m, hc, hm, hmodule⟩ := hheld.node hi
    obtain ⟨hlt, -⟩ := List.getElem?_eq_some_iff.mp hi
    rw [(h.startsEach_called hdistinct).inits, count_inits_of_program ht, hc, hm, Option.any_some,
      Option.any_some, hmodule.init]
    refine if_congr (and_congr_left' ?_) rfl rfl
    exact iff_of_true (List.mem_of_getElem? hi) (by omega)
  · intro thread hthread
    obtain ⟨c, m, hc, hm, hmodule⟩ := hheld.node hi
    obtain ⟨-, m', hm', hget⟩ := (tracked_of_program ht).legal i thread hthread
    obtain rfl := Option.some.inj (hm.symm.trans hm')
    obtain ⟨f, hf, -⟩ := Option.map_eq_some_iff.mp (hmodule.get.trans hget)
    refine List.mem_append_right _ (ControlHeap.mem_called.mpr ⟨i, a, c, hi, hc, ?_⟩)
    rw [callGet, hf, Option.map_some]

end HomeControl
