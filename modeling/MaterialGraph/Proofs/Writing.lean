import MaterialGraph.Proofs.Trace

/-!
# What a compilation writes

A material writes the connected channels of its result node, and a subgraph on its own writes the
outputs that name a channel. Both go through a list of *sources*: one output after the other is
resolved for its channel, and the channel is written if it has a value that fits.

## Main results

* `Pass.writeChannels_eq`, `Pass.writeOutputs_eq` — both kinds of channels are written from sources.
* `Pass.Session.sources` — sources are written in a part of a pass.
* `Pass.writes_eq_ok` — whatever a compilation writes has its source in the root document.
-/

namespace MaterialGraph

/-- Where the value of a channel comes from. -/
structure Write.Source where
  channel : Channel
  node : NodeId
  output : String
  /-- Whether the value is made to fit the channel. -/
  isCast : Bool

/-- The value that a channel is given. -/
def Write.Source.value (source : Write.Source) (types : TypeTable) (e : Expr) :
    Except Fault Expr :=
  if source.isCast then e.castTo types source.channel.type else .ok e

namespace Pass

/-- What is written of an outcome. A value that does not fit is reported. -/
def fit (env : Environment) (source : Write.Source) : Outcome × Pass → Option Write × Pass
  | (.valid e, s) =>
    match source.value env.types e with
    | .ok value => (some ⟨source.channel, value⟩, s)
    | .error fault => (none, s.pushFault source.node fault)
  | (_, s) => (none, s)

/-- Resolves sources one after the other, with what is to be written. -/
def writeSources (env : Environment) : List Write.Source → Pass → List Write × Pass
  | [], s => ([], s)
  | source :: rest, s =>
    let (w, s) := fit env source
      (s.resolveFor env source.channel.stage [] source.node source.output)
    let (ws, s) := writeSources env rest s
    (w.toList ++ ws, s)

/-- The sources of the connected channels of a result node. -/
def channelSources (node : NodeId) (l : List (String × Wire)) : List Write.Source :=
  (l.filter (·.2.isConnected)).filterMap fun entry =>
    (Channel.ofKey? entry.1).map fun channel => ⟨channel, node, channel.key, false⟩

/-- The sources of the outputs of a subgraph. -/
def outputSources (outputs : List (NodeId × Channel)) : List Write.Source :=
  outputs.map fun entry => ⟨entry.2, entry.1, valueOutput, true⟩

variable {env : Environment}

theorem mem_channelSources {node : NodeId} {l : List (String × Wire)} {source : Write.Source}
    (h : source ∈ channelSources node l) : source.node = node := by
  obtain ⟨entry, -, he⟩ := List.mem_filterMap.mp h
  obtain ⟨channel, -, rfl⟩ := Option.map_eq_some_iff.mp he
  rfl

theorem writeChannels_eq (env : Environment) (node : NodeId) (l : List (String × Wire)) :
    ∀ s : Pass, writeChannels env node l s = writeSources env (channelSources node l) s := by
  induction l with
  | nil => exact fun _ => rfl
  | cons entry rest ih =>
    obtain ⟨input, wire⟩ := entry
    intro s
    rw [writeChannels]
    cases hkey : Channel.ofKey? input with
    | none =>
      have hsources : channelSources node ((input, wire) :: rest) = channelSources node rest := by
        by_cases hw : wire.isConnected = true <;> simp [channelSources, hw, hkey]
      rw [hsources]
      exact ih s
    | some channel =>
      by_cases hw : wire.isConnected = true
      · have hsources : channelSources node ((input, wire) :: rest) =
            ⟨channel, node, channel.key, false⟩ :: channelSources node rest := by
          simp [channelSources, hw, hkey]
        simp only [hsources, writeSources, hw, if_true, ih]
        rcases s.resolveFor env channel.stage [] node channel.key with ⟨o, s'⟩
        cases o with
        | _ => rfl
      · have hsources : channelSources node ((input, wire) :: rest) = channelSources node rest := by
          simp [channelSources, hw]
        simp only [hw, hsources]
        exact ih s

theorem writeOutputs_eq (env : Environment) (outputs : List (NodeId × Channel)) :
    ∀ s : Pass, writeOutputs env outputs s = writeSources env (outputSources outputs) s := by
  induction outputs with
  | nil => exact fun _ => rfl
  | cons entry rest ih =>
    obtain ⟨id, channel⟩ := entry
    intro s
    rw [writeOutputs, outputSources, List.map_cons, writeSources, ← outputSources]
    rcases s.resolveFor env channel.stage [] id valueOutput with ⟨o, s'⟩
    cases o with
    | valid e =>
      simp only [fit, Write.Source.value, if_true]
      cases e.castTo env.types channel.type with
      | ok value => simp only [ih]; rfl
      | error fault => exact ih _
    | _ => exact ih _

/-- All that is done about an outcome is to report a value that does not fit. -/
theorem fit_eq (env : Environment) (source : Write.Source) (x : Outcome × Pass) :
    ∃ ds : List Diagnostic, (∀ d ∈ ds, d.concern.isRoutine = true) ∧
      (fit env source x).2 = ds.foldl Pass.push x.2 := by
  obtain ⟨o, s⟩ := x
  cases o with
  | valid e =>
    rw [fit]
    split
    · exact ⟨[], List.forall_mem_nil _, rfl⟩
    · next fault _ =>
      exact ⟨_, fun d hd => Diagnostic.isRoutine_of_ofFault? (Option.mem_toList.mp hd),
        pushFault_eq s source.node fault⟩
  | _ => exact ⟨[], List.forall_mem_nil _, rfl⟩

/-- Sources are resolved one after the other. -/
theorem Session.sources (env : Environment) (sources : List Write.Source) :
    ∀ s : Pass, ∃ l, Session env s (writeSources env sources s).2 l := by
  induction sources with
  | nil => exact fun s => ⟨[], .nil s⟩
  | cons source rest ih =>
    intro s
    obtain ⟨ds, hds, he⟩ := fit_eq env source
      (s.resolveFor env source.channel.stage [] source.node source.output)
    obtain ⟨l, hl⟩ := ih (ds.foldl Pass.push
      (s.resolveFor env source.channel.stage [] source.node source.output).2)
    rw [writeSources]
    dsimp only
    rw [he]
    exact ⟨_, .resolve source.channel.stage [] source.node source.output
      (.report ds (fun d hd => .of_isRoutine (hds d hd)) hl)⟩

/-- The outputs that name a channel are nodes of the document. -/
theorem mem_channelOutputs (nodes : List (NodeId × Behavior)) :
    ∀ (taken : List Channel) (s : Pass), ∀ entry ∈ (channelOutputs taken nodes s).1,
      ∃ b, (entry.1, b) ∈ nodes := by
  induction nodes with
  | nil => exact fun _ _ entry he => by cases he
  | cons node nodes ih =>
    obtain ⟨id, b⟩ := node
    -- an output of the other nodes is one of all of them
    have later {x : NodeId} (h : ∃ b', (x, b') ∈ nodes) : ∃ b', (x, b') ∈ (id, b) :: nodes := by
      obtain ⟨b', hb'⟩ := h
      exact ⟨b', List.mem_cons_of_mem _ hb'⟩
    intro taken s entry he
    rw [channelOutputs] at he
    split at he
    · split at he
      · exact later (ih _ _ entry he)
      · rcases List.mem_cons.mp he with rfl | he
        · exact ⟨b, List.mem_cons_self⟩
        · exact later (ih _ _ entry he)
    · exact later (ih _ _ entry he)

/-- **Whatever a compilation writes has its source in the root document**, which is made ready
first and remarked on. -/
theorem writes_eq_ok {s p : Pass} {isSubgraph : Bool} {ws : List Write}
    (h : (if isSubgraph then s.subgraphWrites env else s.materialWrites env) = .ok (ws, p)) :
    ∃ (ds : List Diagnostic) (sources : List Write.Source),
      (∀ d ∈ ds, d.concern.isRoutine = true) ∧
      (∀ source ∈ sources, ∃ b, (source.node, b) ∈ (s.root env).1.behaviors) ∧
      writeSources env sources (ds.foldl Pass.push (s.root env).2) = (ws, p) := by
  cases isSubgraph with
  | false =>
    rw [if_neg Bool.false_ne_true, materialWrites] at h
    dsimp only at h
    split at h
    · cases h
    · next node b further hresults =>
      rw [Except.ok.injEq, writeChannels_eq, reportFurther_eq] at h
      refine ⟨_, _, fun d hd => ?_, fun source hsource => ?_, h⟩
      · obtain ⟨entry, -, rfl⟩ := List.mem_map.mp hd
        rfl
      · have hfirst : (node, b) ∈ resultNodes (s.root env).1 := by simp [hresults]
        rw [mem_channelSources hsource]
        exact ⟨b, (List.mem_filter.mp hfirst).1⟩
  | true =>
    obtain ⟨ds, hds, he⟩ := channelOutputs_eq (s.root env).1.behaviors [] (s.root env).2
    have hmem := mem_channelOutputs (s.root env).1.behaviors [] (s.root env).2
    rw [if_pos rfl, subgraphWrites] at h
    dsimp only at h
    split at h
    · cases h
    · next outputs s' _ hx =>
      rw [hx] at he hmem
      obtain rfl : s' = ds.foldl Pass.push (s.root env).2 := he
      rw [Except.ok.injEq, writeOutputs_eq] at h
      refine ⟨ds, _, hds, fun source hsource => ?_, h⟩
      obtain ⟨entry, hentry, rfl⟩ := List.mem_map.mp hsource
      exact hmem entry hentry

end Pass

end MaterialGraph
