import CxxLab.CkLab.Pipeline

/-!
# `ck_lab/Graph.cpp` — the graph of processors

A `Graph` has a node for every processor, in order, and for every port of it an edge: a direct one
for an output, to the processor its input belongs to, and a back edge for an input, to the processor
of its output. An edge is found by following the pointer across and looking up where in its list the
port is and which node its processor has.

Both kinds are computed alike and apart from one another. That one kind is the other turned round
rests on `Connect`, which sets the pointers of both ports at once: whatever is connected in
whatever order, ports point back at the ports that point at them (`Heap.Wired`).
-/

set_option autoImplicit false

namespace CxxLab.CkLab

open CxxLab.Lib Exec

/-! ## Graphs -/

/-- `Graph::Edge`. -/
structure Edge where
  /-- `to_`. -/
  toId : Nat
  isReversed : Bool
  inputPortNumber : Nat
  outputPortNumber : Nat
  deriving DecidableEq, Repr

/-- `Graph::Node`, less what the executor uses. -/
structure Node where
  processor : Nat
  processorId : Nat
  directEdges : List Edge
  backEdges : List Edge

structure Graph where
  nodes : List Node
  processorMap : Nat → Option Nat

/-- The loop of `GetOutputPortId` and of `GetInputPortId`, over the ports from number `id` on: where
it comes to the end it runs into an `assert`. -/
def findPort {α : Type} (q : Nat) (r : PortRef) : List α → Nat → Option Nat
  | [], _ => none
  | _ :: ports, id => if PortRef.mk q id = r then some id else findPort q r ports (id + 1)

/-- `IProcessor::GetOutputPortId`. -/
def Heap.getOutputPortId (h : Heap) (q : Nat) (r : PortRef) : Option Nat :=
  findPort q r (h.procs q).outputs 0

/-- `IProcessor::GetInputPortId`. -/
def Heap.getInputPortId (h : Heap) (q : Nat) (r : PortRef) : Option Nat :=
  findPort q r (h.procs q).inputs 0

namespace Graph

/-- `Graph::AddEdge`. -/
def addEdge (g : Graph) (edges : List Edge) (edge : Edge) (target : Nat) : Option (List Edge) := do
  let id ← g.processorMap target
  return edges ++ [{ edge with toId := id }]

/-- A loop of `AddEdges`, from port number `n` on. `peer` is the pointer across. -/
def addPorts {α : Type} (g : Graph) (peer : α → Option PortRef)
    (getPortId : Nat → PortRef → Option Nat) (edgeOf : Nat → Nat → Edge) : List α → Nat → List Edge → Option (List Edge)
  | [], _, edges => some edges
  | port :: ports, n, edges => do
    let r ← peer port
    let id ← getPortId r.proc r
    let edges ← g.addEdge edges (edgeOf n id) r.proc
    addPorts g peer getPortId edgeOf ports (n + 1) edges

/-- The loop over `inputs`. -/
def addInputs (g : Graph) (h : Heap) : List InputPort → Nat → List Edge → Option (List Edge) :=
  g.addPorts InputPort.outputPort h.getOutputPortId fun n id => ⟨0, true, n, id⟩

/-- The loop over `outputs`. -/
def addOutputs (g : Graph) (h : Heap) : List OutputPort → Nat → List Edge → Option (List Edge) :=
  g.addPorts OutputPort.inputPort h.getInputPortId fun n id => ⟨0, false, id, n⟩

/-- `Graph::AddEdges`: ports that have their edges already are left out. -/
def addEdges (h : Heap) (g : Graph) (processorId : Nat) : Option (Bool × Graph) := do
  let node ← g.nodes[processorId]?
  let inputs := (h.procs node.processor).inputs
  let preInputSize := node.backEdges.length
  let backEdges ← (if preInputSize < inputs.length then
      g.addInputs h (inputs.drop preInputSize) preInputSize node.backEdges
    else some node.backEdges)
  let outputs := (h.procs node.processor).outputs
  let preOutputSize := node.directEdges.length
  let directEdges ← (if preOutputSize < outputs.length then
      g.addOutputs h (outputs.drop preOutputSize) preOutputSize node.directEdges
    else some node.directEdges)
  return (preInputSize < inputs.length || preOutputSize < outputs.length,
    { g with nodes := g.nodes.set processorId { node with directEdges, backEdges } })

/-- A turn of the first loop of `Graph::Graph`. -/
def addNode (g : Graph) (processor : Nat) : Graph where
  nodes := g.nodes ++ [⟨processor, g.nodes.length, [], []⟩]
  processorMap := Function.update g.processorMap processor (some g.nodes.length)

/-- `Graph::Graph`. -/
def build (h : Heap) (processors : List Nat) : Option Graph :=
  (List.range processors.length).foldlM (fun g id => (g.addEdges h id).map Prod.snd)
    (processors.foldl addNode ⟨[], fun _ => none⟩)

/-- A direct edge of `u` to `v`. -/
def HasDirectEdge (g : Graph) (u v inp out : Nat) : Prop :=
  ∃ node edge, g.nodes[u]? = some node ∧ edge ∈ node.directEdges ∧ edge.toId = v ∧
    edge.inputPortNumber = inp ∧ edge.outputPortNumber = out

/-- A back edge of `v` to `u`. -/
def HasBackEdge (g : Graph) (v u inp out : Nat) : Prop :=
  ∃ node edge, g.nodes[v]? = some node ∧ edge ∈ node.backEdges ∧ edge.toId = u ∧
    edge.inputPortNumber = inp ∧ edge.outputPortNumber = out

end Graph

/-! ## Connections -/

/-- A call of `Connect`. -/
def connectPorts (h : Heap) (ports : PortRef × PortRef) : Option Heap :=
  match exec (connect ports.1 ports.2) ⟨h, Pipe.new⟩ with
  | (.ok _, s) => some s.heap
  | (.error _, _) => none

namespace Heap

/-- Nothing is connected. -/
def Unconnected (h : Heap) : Prop :=
  (∀ r port, h.output r = some port → port.state = none) ∧
    ∀ r port, h.input r = some port → port.state = none

/-- **What `Connect` keeps**: every port that is connected is so to one that is connected to it. -/
structure Wired (h : Heap) : Prop where
  output : ∀ out port, h.output out = some port → port.state ≠ none → ∃ inp, h.Connected out inp
  input : ∀ inp port, h.input inp = some port → port.state ≠ none → ∃ out, h.Connected out inp

/-- As processors are made. -/
theorem unconnected_of_created {h : Heap}
    (hh : ∀ q, ∃ i o, h.procs q = World.createProcessor i o) : h.Unconnected := by
  constructor
  · intro r port hport
    obtain ⟨i, o, hq⟩ := hh r.proc
    have hmem := List.mem_of_getElem? hport
    rw [hq] at hmem
    rw [List.eq_of_mem_replicate hmem]
  · intro r port hport
    obtain ⟨i, o, hq⟩ := hh r.proc
    have hmem := List.mem_of_getElem? hport
    rw [hq] at hmem
    rw [List.eq_of_mem_replicate hmem]

theorem Unconnected.wired {h : Heap} (hh : h.Unconnected) : h.Wired :=
  ⟨fun r port hport hne => absurd (hh.1 r port hport) hne,
    fun r port hport hne => absurd (hh.2 r port hport) hne⟩

/-- What was connected still is. -/
theorem Connected.join {h : Heap} {out inp out' inp' : PortRef} (hc : h.Connected out' inp')
    (hout : h.OutputOpen out) (hinp : h.InputOpen inp) : (h.join out inp).Connected out' inp' := by
  obtain ⟨st, ho, hi⟩ := hc
  obtain ⟨o, ho', hos⟩ := hout
  obtain ⟨i, hi', his⟩ := hinp
  refine ⟨st, ?_, ?_⟩
  · rw [output_join, if_neg, ho]
    rintro rfl
    rw [ho] at ho'
    cases ho'
    cases hos
  · rw [input_join, if_neg, hi]
    rintro rfl
    rw [hi] at hi'
    cases hi'
    cases his

theorem connected_join {h : Heap} {out inp : PortRef} (hout : h.OutputOpen out)
    (hinp : h.InputOpen inp) : (h.join out inp).Connected out inp := by
  obtain ⟨o, ho, -⟩ := hout
  obtain ⟨i, hi, -⟩ := hinp
  refine ⟨h.nextState, ?_, ?_⟩
  · rw [output_join, if_pos rfl, ho]
    rfl
  · rw [input_join, if_pos rfl, hi]
    rfl

/-- **One connection** more. -/
theorem Wired.join {h : Heap} {out inp : PortRef} (hw : h.Wired) (hout : h.OutputOpen out)
    (hinp : h.InputOpen inp) : (h.join out inp).Wired := by
  refine ⟨fun out' port hport hne => ?_, fun inp' port hport hne => ?_⟩
  · by_cases heq : out' = out
    · subst heq
      exact ⟨inp, connected_join hout hinp⟩
    · rw [output_join, if_neg heq] at hport
      obtain ⟨inp', hc⟩ := hw.output out' port hport hne
      exact ⟨inp', hc.join hout hinp⟩
  · by_cases heq : inp' = inp
    · subst heq
      exact ⟨out, connected_join hout hinp⟩
    · rw [input_join, if_neg heq] at hport
      obtain ⟨out', hc⟩ := hw.input inp' port hport hne
      exact ⟨out', hc.join hout hinp⟩

end Heap

/-- `Connect` joins two open ports or does not return. -/
theorem connect_ok {out inp : PortRef} {s s' : PipeState}
    (h : exec (connect out inp) s = (.ok (), s')) :
    s.heap.OutputOpen out ∧ s.heap.InputOpen inp ∧
      s' = { s with heap := s.heap.join out inp } := by
  cases hout : s.heap.output out with
  | none => simp [connect, exec_bind, hout] at h
  | some o =>
    cases hinp : s.heap.input inp with
    | none => simp [connect, exec_bind, hout, hinp] at h
    | some i =>
      rcases @connect_cases s out inp (by rw [hout]; rfl) (by rw [hinp]; rfl) with
        hstop | ⟨hout', hinp'⟩
      · rw [hstop] at h
        cases h
      · rw [exec_connect hout' hinp'] at h
        cases h
        exact ⟨hout', hinp', rfl⟩

theorem connectPorts_eq_some {h h' : Heap} {ports : PortRef × PortRef} :
    connectPorts h ports = some h' ↔
      h.OutputOpen ports.1 ∧ h.InputOpen ports.2 ∧ h' = h.join ports.1 ports.2 := by
  constructor
  · intro hrun
    rw [connectPorts] at hrun
    split at hrun
    · rename_i s hconnect
      obtain ⟨hout, hinp, rfl⟩ := connect_ok hconnect
      cases hrun
      exact ⟨hout, hinp, rfl⟩
    · cases hrun
  · rintro ⟨hout, hinp, rfl⟩
    rw [connectPorts, exec_connect hout hinp]

theorem wired_of_run {h₀ h : Heap} {cs : List (PortRef × PortRef)} (hh₀ : h₀.Unconnected)
    (hrun : runSteps connectPorts h₀ cs = some h) : h.Wired :=
  runSteps_inv (fun _ _ _ hw hstep => by
    obtain ⟨hout, hinp, rfl⟩ := connectPorts_eq_some.mp hstep
    exact hw.join hout hinp) hh₀.wired hrun

/-! ## The loops of the constructor -/

theorem findPort_eq {α : Type} {q : Nat} {r : PortRef} (hq : r.proc = q) : ∀ (ports : List α) (id : Nat),
    id ≤ r.index → r.index < id + ports.length → findPort q r ports id = some r.index := by
  intro ports
  induction ports with
  | nil => intro id hle hlt; simp at hlt; omega
  | cons port ports ih =>
    intro id hle hlt
    rw [List.length_cons] at hlt
    rw [findPort]
    by_cases heq : PortRef.mk q id = r
    · rw [if_pos heq, ← heq]
    · have hne : id ≠ r.index := by
        rintro rfl
        exact heq (hq ▸ rfl)
      rw [if_neg heq]
      exact ih (id + 1) (by omega) (by omega)

namespace Graph

variable {g : Graph} {h : Heap}

/-- **A loop of `AddEdges`** adds an edge for each port, where every pointer leads to a port of a
processor with a node. -/
theorem addPorts_eq {α : Type} {peer : α → Option PortRef} {getPortId : Nat → PortRef → Option Nat}
    {edgeOf : Nat → Nat → Edge} : ∀ {ports : List α} {n : Nat} {edges : List Edge},
    (∀ port ∈ ports, ∃ r v, peer port = some r ∧ getPortId r.proc r = some r.index ∧
      g.processorMap r.proc = some v) →
    ∃ added, g.addPorts peer getPortId edgeOf ports n edges = some (edges ++ added) ∧
      added.length = ports.length ∧
      ∀ (k : Nat) port, ports[k]? = some port → ∃ r v, peer port = some r ∧
        g.processorMap r.proc = some v ∧ added[k]? = some { edgeOf (n + k) r.index with toId := v } := by
  intro ports
  induction ports with
  | nil =>
    intro n edges _
    exact ⟨[], by rw [List.append_nil]; rfl, rfl, fun k port hk => by cases hk⟩
  | cons port ports ih =>
    intro n edges hports
    obtain ⟨r, v, hpeer, hid, hnode⟩ := hports port List.mem_cons_self
    obtain ⟨added, hrun, hlen, hadded⟩ := @ih (n + 1)
      (edges ++ [{ edgeOf n r.index with toId := v }]) fun port' h' =>
        hports port' (List.mem_cons_of_mem _ h')
    refine ⟨{ edgeOf n r.index with toId := v } :: added, ?_, by rw [List.length_cons, hlen]; rfl,
      fun k port' hk => ?_⟩
    · rw [List.append_assoc] at hrun
      simpa [addPorts, hpeer, hid, addEdge, hnode] using hrun
    · cases k with
      | zero =>
        cases hk
        exact ⟨r, v, hpeer, hnode, rfl⟩
      | succ k =>
        have hk' := hadded k port' hk
        rw [Nat.add_assoc, Nat.add_comm 1 k] at hk'
        exact hk'

/-- The node has an edge for each port of its processor, in order. -/
structure Complete (h : Heap) (g : Graph) (node : Node) : Prop where
  backLength : node.backEdges.length = (h.procs node.processor).inputs.length
  back : ∀ (k : Nat) port, (h.procs node.processor).inputs[k]? = some port → ∃ r v,
    port.outputPort = some r ∧ g.processorMap r.proc = some v ∧
    node.backEdges[k]? = some ⟨v, true, k, r.index⟩
  directLength : node.directEdges.length = (h.procs node.processor).outputs.length
  direct : ∀ (k : Nat) port, (h.procs node.processor).outputs[k]? = some port → ∃ r v,
    port.inputPort = some r ∧ g.processorMap r.proc = some v ∧
    node.directEdges[k]? = some ⟨v, false, r.index, k⟩

/-- **What the constructor has done** when the edges of the first `n` nodes are there. -/
structure Built (h : Heap) (processors : List Nat) (n : Nat) (g : Graph) : Prop where
  length : g.nodes.length = processors.length
  processorMap : ∀ q u, g.processorMap q = some u ↔ processors[u]? = some q
  node : ∀ (u : Nat) q, processors[u]? = some q → ∃ node, g.nodes[u]? = some node ∧
    node.processor = q ∧ node.processorId = u ∧
    (u < n → Complete h g node) ∧ (n ≤ u → node.directEdges = [] ∧ node.backEdges = [])

/-- Behind the first loop there are the nodes and no edge. -/
theorem built_zero (h : Heap) {processors : List Nat} (hnodup : processors.Nodup) :
    Built h processors 0 (processors.foldl addNode ⟨[], fun _ => none⟩) := by
  induction processors using List.reverseRecOn with
  | nil => exact ⟨rfl, by simp, by simp⟩
  | append_singleton processors q ih =>
    obtain ⟨hnodup, -, hnot⟩ := List.nodup_append.mp hnodup
    obtain ⟨hlen, hmap, hnode⟩ := ih hnodup
    rw [List.foldl_append, List.foldl_cons, List.foldl_nil]
    generalize processors.foldl addNode ⟨[], fun _ => none⟩ = g at hlen hnode hmap
    have hcases : ∀ {u : Nat} {q' : Nat}, (processors ++ [q])[u]? = some q' →
        processors[u]? = some q' ∨ u = processors.length ∧ q' = q := by
      intro u q' hu
      rw [List.getElem?_append] at hu
      split at hu
      · exact .inl hu
      · obtain ⟨hlt, heq⟩ := List.getElem?_eq_some_iff.mp hu
        simp only [List.length_singleton] at hlt
        exact .inr ⟨by omega, by simpa using heq.symm⟩
    refine ⟨by simp [addNode, hlen], fun q' u => ?_, fun u q' hu => ?_⟩
    · simp only [addNode, Function.update_apply, hlen]
      by_cases hq : q' = q
      · subst hq
        rw [if_pos rfl]
        constructor
        · rintro ⟨⟩
          simp
        · intro hu
          rcases hcases hu with hu | ⟨rfl, -⟩
          · exact absurd rfl (hnot q' (List.mem_of_getElem? hu) q' List.mem_cons_self)
          · rfl
      · rw [if_neg hq, hmap]
        constructor
        · intro hu
          rw [List.getElem?_append_left (List.getElem?_eq_some_iff.mp hu).1, hu]
        · intro hu
          exact (hcases hu).resolve_right fun h' => hq h'.2
    · rcases hcases hu with hu | ⟨rfl, rfl⟩
      · obtain ⟨node, hat, hproc, hid, -, hnone⟩ := hnode u q' hu
        have hlt := (List.getElem?_eq_some_iff.mp hat).1
        exact ⟨node, by simp only [addNode]; rw [List.getElem?_append_left hlt, hat], hproc, hid,
          fun hlt => absurd hlt (Nat.not_lt_zero _), hnone⟩
      · exact ⟨⟨q', g.nodes.length, [], []⟩, by simp [addNode, hlen], rfl, hlen,
          fun hlt => absurd hlt (Nat.not_lt_zero _), fun _ => ⟨rfl, rfl⟩⟩

end Graph

/-- Every port of these processors is connected, to a port of one of them. -/
structure Heap.AllConnected (h : Heap) (processors : List Nat) : Prop where
  output : ∀ q ∈ processors, ∀ port ∈ (h.procs q).outputs, port.state ≠ none ∧
    ∀ inp ∈ port.inputPort, inp.proc ∈ processors
  input : ∀ q ∈ processors, ∀ port ∈ (h.procs q).inputs, port.state ≠ none ∧
    ∀ out ∈ port.outputPort, out.proc ∈ processors

instance (h : Heap) (processors : List Nat) : Decidable (h.AllConnected processors) :=
  decidable_of_iff
    ((∀ q ∈ processors, ∀ port ∈ (h.procs q).outputs, port.state ≠ none ∧
      ∀ inp ∈ port.inputPort, inp.proc ∈ processors) ∧
    ∀ q ∈ processors, ∀ port ∈ (h.procs q).inputs, port.state ≠ none ∧
      ∀ out ∈ port.outputPort, out.proc ∈ processors)
    ⟨fun h' => ⟨h'.1, h'.2⟩, fun h' => ⟨h'.output, h'.input⟩⟩

namespace Graph

variable {g : Graph} {h : Heap} {processors : List Nat}

/-- The pointer of an input leads to an output of a processor with a node. -/
theorem Built.peer_input {n : Nat} (hb : Built h processors n g) (hw : h.Wired)
    (hall : h.AllConnected processors) {q : Nat} (hq : q ∈ processors) {port : InputPort}
    (hport : port ∈ (h.procs q).inputs) : ∃ r v, port.outputPort = some r ∧
      h.getOutputPortId r.proc r = some r.index ∧ g.processorMap r.proc = some v := by
  obtain ⟨k, hk⟩ := List.mem_iff_getElem?.mp hport
  have hin : h.input ⟨q, k⟩ = some port := hk
  obtain ⟨hne, hmem⟩ := hall.input q hq port hport
  obtain ⟨out, st, hout, hback⟩ := hw.input ⟨q, k⟩ port hin hne
  cases hin.symm.trans hback
  obtain ⟨v, hv⟩ := List.mem_iff_getElem?.mp (hmem out rfl)
  have hlt := (List.getElem?_eq_some_iff.mp hout).1
  exact ⟨out, v, rfl, findPort_eq rfl _ 0 (Nat.zero_le _) (by rw [Nat.zero_add]; exact hlt),
    (hb.processorMap _ _).mpr hv⟩

/-- The pointer of an output leads to an input of a processor with a node. -/
theorem Built.peer_output {n : Nat} (hb : Built h processors n g) (hw : h.Wired)
    (hall : h.AllConnected processors) {q : Nat} (hq : q ∈ processors) {port : OutputPort}
    (hport : port ∈ (h.procs q).outputs) : ∃ r v, port.inputPort = some r ∧
      h.getInputPortId r.proc r = some r.index ∧ g.processorMap r.proc = some v := by
  obtain ⟨k, hk⟩ := List.mem_iff_getElem?.mp hport
  have hout : h.output ⟨q, k⟩ = some port := hk
  obtain ⟨hne, hmem⟩ := hall.output q hq port hport
  obtain ⟨inp, st, hthere, hin⟩ := hw.output ⟨q, k⟩ port hout hne
  cases hout.symm.trans hthere
  obtain ⟨v, hv⟩ := List.mem_iff_getElem?.mp (hmem inp rfl)
  have hlt := (List.getElem?_eq_some_iff.mp hin).1
  exact ⟨inp, v, rfl, findPort_eq rfl _ 0 (Nat.zero_le _) (by rw [Nat.zero_add]; exact hlt),
    (hb.processorMap _ _).mpr hv⟩

/-- A node without edges gets all of them. -/
theorem addEdges_of_empty {u : Nat} {node : Node} (hat : g.nodes[u]? = some node)
    (hdirect : node.directEdges = []) (hback : node.backEdges = [])
    (hin : ∀ port ∈ (h.procs node.processor).inputs, ∃ r v, port.outputPort = some r ∧
      h.getOutputPortId r.proc r = some r.index ∧ g.processorMap r.proc = some v)
    (hout : ∀ port ∈ (h.procs node.processor).outputs, ∃ r v, port.inputPort = some r ∧
      h.getInputPortId r.proc r = some r.index ∧ g.processorMap r.proc = some v) :
    ∃ direct back, (g.addEdges h u).map Prod.snd = some { g with
        nodes := g.nodes.set u { node with directEdges := direct, backEdges := back } } ∧
      Complete h g { node with directEdges := direct, backEdges := back } := by
  obtain ⟨back, hbackRun, hbackLen, hbackAt⟩ := @addPorts_eq g _ _ _ (fun n id => ⟨0, true, n, id⟩)
    _ 0 [] hin
  obtain ⟨direct, hdirectRun, hdirectLen, hdirectAt⟩ := @addPorts_eq g _ _ _
    (fun n id => ⟨0, false, id, n⟩) _ 0 [] hout
  rw [List.nil_append] at hbackRun hdirectRun
  -- A loop over no ports is left out, and adds nothing.
  have hbackIf : (if 0 < (h.procs node.processor).inputs.length then
      g.addInputs h (h.procs node.processor).inputs 0 [] else some []) = some back := by
    split
    · exact hbackRun
    · rename_i hzero
      rw [List.eq_nil_of_length_eq_zero (by omega : back.length = 0)]
  have hdirectIf : (if 0 < (h.procs node.processor).outputs.length then
      g.addOutputs h (h.procs node.processor).outputs 0 [] else some []) = some direct := by
    split
    · exact hdirectRun
    · rename_i hzero
      rw [List.eq_nil_of_length_eq_zero (by omega : direct.length = 0)]
  refine ⟨direct, back, ?_, hbackLen, fun k port hk => ?_, hdirectLen, fun k port hk => ?_⟩
  · simp only [Graph.addEdges, hat, hback, hdirect, List.length_nil, List.drop_zero,
      Option.bind_eq_bind, Option.bind_some, hbackIf, hdirectIf, Option.pure_def, Option.map_some]
  · have hk' := hbackAt k port hk
    rwa [Nat.zero_add] at hk'
  · have hk' := hdirectAt k port hk
    rwa [Nat.zero_add] at hk'

/-- **One call of `AddEdges`** by the constructor. -/
theorem Built.addEdges {n : Nat} (hb : Built h processors n g) (hw : h.Wired)
    (hall : h.AllConnected processors) (hn : n < processors.length) :
    ∃ g', (g.addEdges h n).map Prod.snd = some g' ∧ Built h processors (n + 1) g' := by
  obtain ⟨node, hat, hproc, hid, -, hnone⟩ := hb.node n _ (List.getElem?_eq_getElem hn)
  obtain ⟨hdirect, hback⟩ := hnone (Nat.le_refl n)
  have hmem : node.processor ∈ processors := hproc ▸ List.getElem_mem hn
  obtain ⟨direct, back, hrun, hcomplete⟩ := addEdges_of_empty hat hdirect hback
    (fun port hport => hb.peer_input hw hall hmem hport)
    fun port hport => hb.peer_output hw hall hmem hport
  refine ⟨_, hrun, by simpa using hb.length, hb.processorMap, fun u q hu => ?_⟩
  by_cases hun : u = n
  · subst hun
    obtain ⟨node', hat', hproc', hid', -⟩ := hb.node u q hu
    cases hat.symm.trans hat'
    refine ⟨_, List.getElem?_set_self (List.getElem?_eq_some_iff.mp hat).1, hproc', hid',
      fun _ => ?_, fun hle => absurd hle (Nat.not_succ_le_self u)⟩
    exact ⟨hcomplete.backLength, hcomplete.back, hcomplete.directLength, hcomplete.direct⟩
  · obtain ⟨node', hat', hproc', hid', hdone, hnone'⟩ := hb.node u q hu
    refine ⟨node', by rw [List.getElem?_set_ne (Ne.symm hun)]; exact hat', hproc', hid',
      fun hlt => ?_, fun hle => hnone' (by omega)⟩
    obtain ⟨h₁, h₂, h₃, h₄⟩ := hdone (by omega)
    exact ⟨h₁, h₂, h₃, h₄⟩

/-- **The constructor** gives every node its edges. -/
theorem build_eq (hw : h.Wired) (hnodup : processors.Nodup) (hall : h.AllConnected processors) :
    ∃ g, build h processors = some g ∧ Built h processors processors.length g := by
  have hloop : ∀ n, n ≤ processors.length → ∃ g, (List.range n).foldlM
      (fun g id => (g.addEdges h id).map Prod.snd) (processors.foldl addNode ⟨[], fun _ => none⟩) =
        some g ∧ Built h processors n g := by
    intro n
    induction n with
    | zero => intro _; exact ⟨_, rfl, built_zero h hnodup⟩
    | succ n ih =>
      intro hn
      obtain ⟨g, hrun, hb⟩ := ih (Nat.le_of_succ_le hn)
      obtain ⟨g', hone, hb'⟩ := hb.addEdges hw hall hn
      refine ⟨g', ?_, hb'⟩
      rw [List.range_succ, List.foldlM_append, hrun]
      simpa using hone
  exact hloop _ (Nat.le_refl _)

end Graph

/-- Output `out` of processor number `u` is connected to input `inp` of processor number `v`. -/
def PortsConnected (h : Heap) (processors : List Nat) (u v inp out : Nat) : Prop :=
  ∃ q q', processors[u]? = some q ∧ processors[v]? = some q' ∧ h.Connected ⟨q, out⟩ ⟨q', inp⟩

/-- **The graph of the connections**: a node for each processor, with a direct edge for each output
and a back edge for each input, in order; the edges of each kind are the connections.

Nodes are numbered in the order of the processors, and edges refer to these numbers. Connected are
two ports that point at each other, so both ends are looked at, and an edge has to be there from
both its nodes. -/
structure Graph.Mirrors (h : Heap) (processors : List Nat) (g : Graph) : Prop where
  length : g.nodes.length = processors.length
  node : ∀ (u : Nat) q, processors[u]? = some q → ∃ node, g.nodes[u]? = some node ∧
    node.processor = q ∧ node.processorId = u ∧
    node.directEdges.map Edge.outputPortNumber = List.range (h.procs q).outputs.length ∧
    node.backEdges.map Edge.inputPortNumber = List.range (h.procs q).inputs.length
  direct_iff : ∀ u v inp out, g.HasDirectEdge u v inp out ↔
    g.HasBackEdge v u inp out ∧ PortsConnected h processors u v inp out
  back_iff : ∀ u v inp out, g.HasBackEdge v u inp out ↔ PortsConnected h processors u v inp out

namespace Graph

variable {g : Graph} {h : Heap} {processors : List Nat}

/-- Edges that are numbered as the ports are. -/
theorem map_eq_range {edges : List Edge} {number : Edge → Nat} {n : Nat} (hlen : edges.length = n)
    (hat : ∀ k, k < n → ∃ edge, edges[k]? = some edge ∧ number edge = k) :
    edges.map number = List.range n := by
  refine List.ext_getElem? fun k => ?_
  rw [List.getElem?_map]
  by_cases hk : k < n
  · obtain ⟨edge, hedge, hnumber⟩ := hat k hk
    rw [hedge, List.getElem?_range hk, Option.map_some, hnumber]
  · rw [List.getElem?_eq_none (by omega), List.getElem?_eq_none (by simpa using hk)]
    rfl

/-- Edge `k` of a complete node is that of output `k`. -/
theorem Built.hasDirectEdge_iff (hb : Built h processors processors.length g) (hw : h.Wired)
    (hall : h.AllConnected processors) (u v inp out : Nat) :
    g.HasDirectEdge u v inp out ↔ PortsConnected h processors u v inp out := by
  constructor
  · rintro ⟨node, edge, hat, hmem, rfl, rfl, rfl⟩
    have hu : u < processors.length := hb.length ▸ (List.getElem?_eq_some_iff.mp hat).1
    obtain ⟨node', hat', hproc, -, hdone, -⟩ := hb.node u _ (List.getElem?_eq_getElem hu)
    cases hat.symm.trans hat'
    have hcomplete := hdone hu
    obtain ⟨k, hk⟩ := List.mem_iff_getElem?.mp hmem
    have hlt : k < (h.procs node.processor).outputs.length :=
      hcomplete.directLength ▸ (List.getElem?_eq_some_iff.mp hk).1
    obtain ⟨r, v, hpeer, hnode, hedge⟩ := hcomplete.direct k _ (List.getElem?_eq_getElem hlt)
    cases hk.symm.trans hedge
    have hout : h.output ⟨node.processor, k⟩ = some (h.procs node.processor).outputs[k] :=
      List.getElem?_eq_getElem hlt
    obtain ⟨inp, hc⟩ := hw.output _ _ hout
      (hall.output node.processor (hproc ▸ List.getElem_mem hu) _ (List.getElem_mem hlt)).1
    obtain ⟨st, hthere, hin⟩ := hc
    have hpeer' := congrArg OutputPort.inputPort (Option.some_inj.mp (hout.symm.trans hthere))
    cases hpeer.symm.trans hpeer'
    exact ⟨_, r.proc, List.getElem?_eq_getElem hu, (hb.processorMap _ _).mp hnode, st,
      hproc ▸ hthere, hproc ▸ hin⟩
  · rintro ⟨q, q', hq, hq', st, hout, hin⟩
    have hu := (List.getElem?_eq_some_iff.mp hq).1
    obtain ⟨node, hat, rfl, -, hdone, -⟩ := hb.node u q hq
    obtain ⟨r, v', hpeer, hnode, hedge⟩ := (hdone hu).direct out _ hout
    cases hpeer
    cases ((hb.processorMap _ _).mpr hq').symm.trans hnode
    exact ⟨node, _, hat, List.mem_of_getElem? hedge, rfl, rfl, rfl⟩

/-- Back edge `k` of a complete node is that of input `k`. -/
theorem Built.hasBackEdge_iff (hb : Built h processors processors.length g) (hw : h.Wired)
    (hall : h.AllConnected processors) (u v inp out : Nat) :
    g.HasBackEdge v u inp out ↔ PortsConnected h processors u v inp out := by
  constructor
  · rintro ⟨node, edge, hat, hmem, rfl, rfl, rfl⟩
    have hv : v < processors.length := hb.length ▸ (List.getElem?_eq_some_iff.mp hat).1
    obtain ⟨node', hat', hproc, -, hdone, -⟩ := hb.node v _ (List.getElem?_eq_getElem hv)
    cases hat.symm.trans hat'
    have hcomplete := hdone hv
    obtain ⟨k, hk⟩ := List.mem_iff_getElem?.mp hmem
    have hlt : k < (h.procs node.processor).inputs.length :=
      hcomplete.backLength ▸ (List.getElem?_eq_some_iff.mp hk).1
    obtain ⟨r, u, hpeer, hnode, hedge⟩ := hcomplete.back k _ (List.getElem?_eq_getElem hlt)
    cases hk.symm.trans hedge
    have hin : h.input ⟨node.processor, k⟩ = some (h.procs node.processor).inputs[k] :=
      List.getElem?_eq_getElem hlt
    obtain ⟨out, hc⟩ := hw.input _ _ hin
      (hall.input node.processor (hproc ▸ List.getElem_mem hv) _ (List.getElem_mem hlt)).1
    obtain ⟨st, hout, hthere⟩ := hc
    have hpeer' := congrArg InputPort.outputPort (Option.some_inj.mp (hin.symm.trans hthere))
    cases hpeer.symm.trans hpeer'
    exact ⟨r.proc, _, (hb.processorMap _ _).mp hnode, List.getElem?_eq_getElem hv, st,
      hproc ▸ hout, hproc ▸ hthere⟩
  · rintro ⟨q, q', hq, hq', st, hout, hin⟩
    have hv := (List.getElem?_eq_some_iff.mp hq').1
    obtain ⟨node, hat, rfl, -, hdone, -⟩ := hb.node v q' hq'
    obtain ⟨r, u', hpeer, hnode, hedge⟩ := (hdone hv).back inp _ hin
    cases hpeer
    cases ((hb.processorMap _ _).mpr hq).symm.trans hnode
    exact ⟨node, _, hat, List.mem_of_getElem? hedge, rfl, rfl, rfl⟩

theorem Built.mirrors (hb : Built h processors processors.length g) (hw : h.Wired)
    (hall : h.AllConnected processors) : g.Mirrors h processors := by
  refine ⟨hb.length, fun u q hq => ?_, fun u v inp out => ?_, hb.hasBackEdge_iff hw hall⟩
  · obtain ⟨node, hat, rfl, hid, hdone, -⟩ := hb.node u q hq
    have hcomplete := hdone (List.getElem?_eq_some_iff.mp hq).1
    refine ⟨node, hat, rfl, hid, map_eq_range hcomplete.directLength fun k hk => ?_,
      map_eq_range hcomplete.backLength fun k hk => ?_⟩
    · obtain ⟨r, v, -, -, hedge⟩ := hcomplete.direct k _ (List.getElem?_eq_getElem hk)
      exact ⟨_, hedge, rfl⟩
    · obtain ⟨r, v, -, -, hedge⟩ := hcomplete.back k _ (List.getElem?_eq_getElem hk)
      exact ⟨_, hedge, rfl⟩
  · rw [hb.hasDirectEdge_iff hw hall, hb.hasBackEdge_iff hw hall, and_self]

/-- `AddEdges` finds nothing to add to a node that is complete. -/
theorem Built.addEdges_again (hb : Built h processors processors.length g) {u : Nat}
    (hu : u < processors.length) : g.addEdges h u = some (false, g) := by
  obtain ⟨node, hat, -, -, hdone, -⟩ := hb.node u _ (List.getElem?_eq_getElem hu)
  have hcomplete := hdone hu
  have hset : g.nodes.set u node = g.nodes := by
    obtain ⟨hlt, heq⟩ := List.getElem?_eq_some_iff.mp hat
    rw [← heq, List.set_getElem_self]
  simp only [Graph.addEdges, hat, hcomplete.backLength, hcomplete.directLength, Nat.lt_irrefl, if_false,
    Option.bind_eq_bind, Option.bind_some, Option.pure_def, decide_false, Bool.or_self, hset]

/-- **The edges of a graph are the connections of its processors**, in both directions: whatever
`Connect` was called for to connect them, each way the graph sees the same. Adding the edges of a
node again adds none.

`AddEdges` follows an output port to the input port at its other end and from there to its
processor, which is looked up among the nodes. That it ends at the right one rests on what `Connect`
leaves behind: the two ports of a connection point at each other (`Wired`), also when one of them
was connected elsewhere before. -/
theorem build_mirrors {h₀ : Heap} {connects : List (PortRef × PortRef)} (hh₀ : h₀.Unconnected)
    (hrun : runSteps connectPorts h₀ connects = some h) (hnodup : processors.Nodup)
    (hall : h.AllConnected processors) :
    ∃ g, build h processors = some g ∧ g.Mirrors h processors ∧
      ∀ u, u < processors.length → g.addEdges h u = some (false, g) := by
  have hw := wired_of_run hh₀ hrun
  obtain ⟨g, hbuild, hb⟩ := build_eq hw hnodup hall
  exact ⟨g, hbuild, hb.mirrors hw hall, fun u hu => hb.addEdges_again hu⟩

/-- Two processors in a circle, the second of them connected to itself as well. -/
def loopedProcessors : Heap where
  procs
    | 5 => World.createProcessor 1 1
    | 7 => World.createProcessor 2 2
    | _ => World.createProcessor 0 0
  nextState := 0

theorem loopedProcessors_unconnected : loopedProcessors.Unconnected := by
  refine Heap.unconnected_of_created fun q => ?_
  unfold loopedProcessors
  dsimp only
  split
  · exact ⟨1, 1, rfl⟩
  · exact ⟨2, 2, rfl⟩
  · exact ⟨0, 0, rfl⟩

theorem build_mirrors_looped : ∃ h, runSteps connectPorts loopedProcessors
      [(⟨5, 0⟩, ⟨7, 1⟩), (⟨7, 0⟩, ⟨5, 0⟩), (⟨7, 1⟩, ⟨7, 0⟩)] = some h ∧
    ∃ g, build h [7, 5] = some g ∧ g.Mirrors h [7, 5] ∧
      ∀ u, u < 2 → g.addEdges h u = some (false, g) :=
  ⟨_, rfl, @build_mirrors _ _ loopedProcessors [(⟨5, 0⟩, ⟨7, 1⟩), (⟨7, 0⟩, ⟨5, 0⟩), (⟨7, 1⟩, ⟨7, 0⟩)]
    loopedProcessors_unconnected rfl (by decide) (by decide +kernel)⟩

end Graph

end CxxLab.CkLab
