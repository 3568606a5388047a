import PropertyGraph.Proofs.Loader.Loading
import PropertyGraph.Proofs.Node.Calls

namespace PropertyGraph.Loader

-- A node that is mentioned, with labels and values for it.
structure Mention where
  external : Nat
  labels : List Label
  values : List (String × PropertyValue)

def Call.mention? : Call → Option Mention
  | .addNode external labels values => some ⟨external, labels, values⟩
  | _ => none

-- The external ids that a call names.
def Call.names : Call → List Nat
  | .addNode external _ _ => [external]
  | .addRelationship _ source target _ => [source, target]
  | _ => []

-- The nodes that calls add by themselves, not as ends of relationships.
def mentionsIn (calls : List Call) : List Mention :=
  calls.filterMap Call.mention?

-- All labels that an external id was given.
def labelsGiven (ms : List Mention) (external : Nat) : List Label :=
  (ms.filter (·.external = external)).flatMap (·.labels)

-- The values that an external id was given under a key, in their order.
def valuesGiven (ms : List Mention) (external : Nat) (key : String) : List PropertyValue :=
  (((ms.filter (·.external = external)).flatMap (·.values)).filter (·.1 = key)).map (·.2)

-- Whether a floating-point number was given to any node under a key.
def GivenDouble (ms : List Mention) (key : String) : Prop :=
  ∃ external x, .double x ∈ valuesGiven ms external key

section Columns

variable {columns : NameMap String PendingColumn} {key : String} {node v : Nat}

def valueAt (columns : NameMap String PendingColumn) (key : String) (v : Nat) : Option PropertyValue :=
  (columns.find? key).bind (·.values[v]?)

def isRetyped (columns : NameMap String PendingColumn) (key : String) : Bool :=
  (columns.find? key).any (·.anyDouble)

theorem find?_addValue (node : Nat) (columns : NameMap String PendingColumn) (p : String × PropertyValue) :
    (addValue node columns p).find? key =
      if key = p.1 then some (((columns.find? key).getD {}).add node p.2) else columns.find? key := by
  rw [addValue, NameMap.alter_eq]
  by_cases hk : key = p.1
  case pos => rw [if_pos hk, hk, NameMap.find?_insert_self]
  case neg => rw [if_neg hk, NameMap.find?_insert_of_ne _ _ hk]

theorem valueAt_addValue (node : Nat) (columns : NameMap String PendingColumn) (p : String × PropertyValue) :
    valueAt (addValue node columns p) key v =
      if key = p.1 ∧ v = node then some p.2 else valueAt columns key v := by
  rw [valueAt, find?_addValue, valueAt]
  by_cases hk : key = p.1
  case neg => simp [hk]
  case pos =>
    simp only [if_pos hk, Option.bind_some, PendingColumn.add, Std.HashMap.getElem?_insert, beq_iff_eq]
    cases columns.find? key <;> by_cases hv : v = node <;> simp [hk, hv, eq_comm]

theorem isRetyped_addValue (node : Nat) (columns : NameMap String PendingColumn) (p : String × PropertyValue) :
    isRetyped (addValue node columns p) key = true ↔
      isRetyped columns key = true ∨ key = p.1 ∧ ∃ x, p.2 = .double x := by
  rw [isRetyped, find?_addValue, isRetyped]
  have ⟨key', value⟩ := p
  by_cases hk : key = key'
  case neg => simp [hk]
  case pos =>
    cases columns.find? key <;> cases value <;> simp [hk, PendingColumn.add]

-- Of the values given to a node the last stays, and those of other nodes stay as they are.
theorem valueAt_foldl_addValue (node : Nat) (values : List (String × PropertyValue))
    (columns : NameMap String PendingColumn) :
    valueAt (values.foldl (addValue node) columns) key v =
      if v = node then ((values.filter (·.1 = key)).map (·.2)).getLast?.or (valueAt columns key v)
      else valueAt columns key v := by
  induction values generalizing columns
  case nil => simp
  case cons p values hi =>
    rw [List.foldl_cons, hi, valueAt_addValue, List.filter_cons]
    by_cases hv : v = node
    case neg => simp [hv]
    case pos =>
      by_cases hk : key = p.1
      case neg => simp [hk, Ne.symm hk]
      case pos => simp [hv, hk, List.getLast?_cons]

theorem isRetyped_foldl_addValue (node : Nat) (values : List (String × PropertyValue))
    (columns : NameMap String PendingColumn) :
    isRetyped (values.foldl (addValue node) columns) key = true ↔
      isRetyped columns key = true ∨ ∃ x, (key, .double x) ∈ values := by
  induction values generalizing columns
  case nil => simp
  case cons p values hi =>
    have hp : (∃ x, (key, .double x) ∈ p :: values) ↔
        (key = p.1 ∧ ∃ x, p.2 = .double x) ∨ ∃ x, (key, .double x) ∈ values := by
      simp only [List.mem_cons, Prod.ext_iff, exists_or, exists_and_left, eq_comm]
    rw [List.foldl_cons, hi, isRetyped_addValue, or_assoc, hp]

end Columns

section Mentions

variable {ms : List Mention} {m : Mention} {x : Nat} {key : String}

-- What mentions ask of an id map.
def nodeCalls (ms : List Mention) : List (Nat × List Label) :=
  ms.map fun m => (m.external, m.labels)

theorem givenTo_nodeCalls (ms : List Mention) (x : Nat) : IdMap.givenTo (nodeCalls ms) x = labelsGiven ms x := by
  rw [IdMap.givenTo, nodeCalls, List.filter_map, List.flatMap_map]
  rfl

theorem mem_named_nodeCalls : x ∈ IdMap.named (nodeCalls ms) ↔ ∃ m ∈ ms, m.external = x := by
  simp [IdMap.mem_named, nodeCalls]

theorem labelsGiven_concat (ms : List Mention) (m : Mention) (x : Nat) :
    labelsGiven (ms ++ [m]) x = labelsGiven ms x ++ if m.external = x then m.labels else [] := by
  rw [labelsGiven, List.filter_append, List.flatMap_append, labelsGiven]
  by_cases h : m.external = x <;> simp [h]

theorem valuesGiven_concat (ms : List Mention) (m : Mention) (x : Nat) (key : String) :
    valuesGiven (ms ++ [m]) x key =
      valuesGiven ms x key ++ if m.external = x then (m.values.filter (·.1 = key)).map (·.2) else [] := by
  rw [valuesGiven, List.filter_append, List.flatMap_append, List.filter_append, List.map_append, valuesGiven]
  by_cases h : m.external = x <;> simp [h]

theorem valuesGiven_of_not_named (h : x ∉ IdMap.named (nodeCalls ms)) (key : String) :
    valuesGiven ms x key = [] := by
  have hf : ms.filter (·.external = x) = [] :=
    List.filter_eq_nil_iff.mpr fun m hm he => h (mem_named_nodeCalls.mpr ⟨m, hm, of_decide_eq_true he⟩)
  rw [valuesGiven, hf]
  rfl

theorem exists_mention_of_valuesGiven (h : valuesGiven ms x key ≠ []) : ∃ m ∈ ms, m.external = x :=
  mem_named_nodeCalls.mp (not_not.mp fun hm => h (valuesGiven_of_not_named hm key))

theorem givenDouble_concat (ms : List Mention) (m : Mention) (key : String) :
    GivenDouble (ms ++ [m]) key ↔ GivenDouble ms key ∨ ∃ x, (key, .double x) ∈ m.values := by
  have hm : ∀ x, .double x ∈ (m.values.filter (·.1 = key)).map (·.2) ↔ (key, .double x) ∈ m.values := fun x => by
    simp [List.mem_filter]
  simp only [GivenDouble, valuesGiven_concat, List.mem_append, exists_or, List.mem_ite_nil_right, hm]
  refine or_congr_right ⟨fun ⟨_, x, _, hx⟩ => ⟨x, hx⟩, fun ⟨x, hx⟩ => ⟨m.external, x, rfl, hx⟩⟩

end Mentions

-- A loader after its nodes were mentioned.
structure Gathers (l : Loader) (ms : List Mention) : Prop where
  tracks : l.nodes.Tracks (nodeCalls ms)
  values : ∀ key v x, l.nodes.externals.id? v = some x → valueAt l.columns key v = (valuesGiven ms x key).getLast?
  bounded : ∀ key v, valueAt l.columns key v ≠ none → v < l.nodes.nodeCount
  retyped : ∀ key, isRetyped l.columns key = true ↔ GivenDouble ms key

variable {l l' : Loader} {ms : List Mention} {m : Mention} {calls : List Call} {c : Call} {all : List Nat}

theorem empty_gathers : Gathers {} [] where
  tracks := IdMap.Builder.empty_tracks
  values _ _ _ hx := by cases hx
  bounded _ _ h := absurd rfl h
  retyped key := by simp [isRetyped, GivenDouble, valuesGiven]

theorem Gathers.congr (h : l.Gathers ms) (hn : l'.nodes = l.nodes) (hc : l'.columns = l.columns) :
    l'.Gathers ms :=
  ⟨hn ▸ h.tracks, hn ▸ hc ▸ h.values, hn ▸ hc ▸ h.bounded, hc ▸ h.retyped⟩

-- A node that was not there before has no values, and none were given to it.
theorem Gathers.values_of_grows (h : l.Gathers ms) {b : IdMap.Builder} (hg : l.nodes.Grows b) {v x : Nat}
    (hx : b.externals.id? v = some x) (key : String) :
    valueAt l.columns key v = (valuesGiven ms x key).getLast? := by
  cases hv : l.nodes.externals.id? v
  case some y =>
    have hy : y = x := Option.some.inj ((hg.ids v y hv).symm.trans hx)
    exact hy ▸ h.values key v y hv
  case none =>
    have hvalue : valueAt l.columns key v = none := by
      by_contra hne
      have ⟨y, hy⟩ := Numbering.exists_id? (h.bounded key v hne)
      cases hv.symm.trans hy
    have hnot : x ∉ IdMap.named (nodeCalls ms) := fun hm => by
      have ⟨w, hw⟩ := List.mem_iff_getElem?.mp hm
      have hw := h.tracks.id?_iff.mpr hw
      have hvw := Numbering.id?_injective hx (hg.ids w x hw)
      cases hv.symm.trans (hvw ▸ hw)
    rw [hvalue, valuesGiven_of_not_named hnot]
    rfl

theorem Gathers.addNode (h : l.Gathers ms) {node : Nat} {b : IdMap.Builder}
    (ha : l.nodes.addNode m.external m.labels = (.ok node, b)) :
    Gathers { l with nodes := b, columns := m.values.foldl (addValue node) l.columns } (ms ++ [m]) := by
  have ⟨_, hg, hid⟩ := IdMap.Builder.addNode_sound h.tracks.sound ha
  have hcalls : nodeCalls (ms ++ [m]) = nodeCalls ms ++ [(m.external, m.labels)] := List.map_append
  refine ⟨hcalls ▸ IdMap.Builder.addNode_tracks h.tracks ha, fun key v x hx => ?values, fun key v hv => ?bounded,
    fun key => ?retyped⟩
  case values =>
    have hx : b.externals.id? v = some x := hx
    have hsame : v = node ↔ m.external = x :=
      ⟨fun hv => Option.some.inj (hid.symm.trans (hv ▸ hx)), fun he => Numbering.id?_injective hx (he ▸ hid)⟩
    rw [valueAt_foldl_addValue, valuesGiven_concat, h.values_of_grows hg hx]
    by_cases hv : v = node
    case pos => rw [if_pos hv, if_pos (hsame.mp hv), List.getLast?_append]
    case neg => rw [if_neg hv, if_neg (mt hsame.mpr hv), List.append_nil]
  case bounded =>
    rw [valueAt_foldl_addValue] at hv
    by_cases hn : v = node
    case pos =>
      have hlt : node < b.nodeCount := Numbering.lt_size_of_id? hid
      exact hn ▸ hlt
    case neg => exact Nat.lt_of_lt_of_le (h.bounded key v (by simpa [hn] using hv)) hg.size
  case retyped => rw [isRetyped_foldl_addValue, h.retyped, givenDouble_concat]

-- Mentions of all that calls give, and of ends of relationships besides. No id is from outside of `all`.
structure Enlists (all : List Nat) (ms : List Mention) (calls : List Call) : Prop where
  labels : ∀ x, labelsGiven ms x = labelsGiven (mentionsIn calls) x
  values : ∀ x key, valuesGiven ms x key = valuesGiven (mentionsIn calls) x key
  known : ∀ m ∈ mentionsIn calls, ∃ m' ∈ ms, m'.external = m.external
  inside : ∀ m ∈ ms, m.external ∈ all

theorem Enlists.givenDouble (h : Enlists all ms calls) {key : String} :
    GivenDouble ms key ↔ GivenDouble (mentionsIn calls) key := by
  simp only [GivenDouble, h.values]

theorem mentionsIn_concat (calls : List Call) (c : Call) :
    mentionsIn (calls ++ [c]) = mentionsIn calls ++ c.mention?.toList := by
  rw [mentionsIn, List.filterMap_append, mentionsIn]
  cases h : c.mention? <;> simp [h]

theorem Enlists.mention (h : Enlists all ms calls) (hc : c.mention? = some m) (hm : m.external ∈ all) :
    Enlists all (ms ++ [m]) (calls ++ [c]) := by
  have hms : mentionsIn (calls ++ [c]) = mentionsIn calls ++ [m] := by rw [mentionsIn_concat, hc]; rfl
  refine ⟨fun x => ?labels, fun x key => ?values, hms ▸ List.forall_mem_append.mpr ⟨fun m' hm' => ?known, ?self⟩,
    List.forall_mem_append.mpr ⟨h.inside, by simpa using hm⟩⟩
  case labels => rw [hms, labelsGiven_concat, labelsGiven_concat, h.labels]
  case values => rw [hms, valuesGiven_concat, valuesGiven_concat, h.values]
  case known =>
    have ⟨m₁, hm₁, he⟩ := h.known m' hm'
    exact ⟨m₁, List.mem_append_left _ hm₁, he⟩
  case self => simp

theorem Enlists.skip (h : Enlists all ms calls) (hc : c.mention? = none) : Enlists all ms (calls ++ [c]) := by
  have hms : mentionsIn (calls ++ [c]) = mentionsIn calls := by rw [mentionsIn_concat, hc]; exact List.append_nil _
  exact ⟨hms ▸ h.labels, hms ▸ h.values, hms ▸ h.known, h.inside⟩

-- The end of a relationship is mentioned with nothing.
theorem Enlists.bare (h : Enlists all ms calls) {x : Nat} (hx : x ∈ all) : Enlists all (ms ++ [⟨x, [], []⟩]) calls := by
  refine ⟨fun y => ?labels, fun y key => ?values, fun m hm => ?known,
    List.forall_mem_append.mpr ⟨h.inside, by simpa using hx⟩⟩
  case labels => rw [labelsGiven_concat, ite_self, List.append_nil, h.labels]
  case values => rw [valuesGiven_concat, List.filter_nil, List.map_nil, ite_self, List.append_nil, h.values]
  case known =>
    have ⟨m', hm', he⟩ := h.known m hm
    exact ⟨m', List.mem_append_left _ hm', he⟩

theorem length_named_le (h : ∀ m ∈ ms, m.external ∈ all) :
    (IdMap.named (nodeCalls ms)).length ≤ all.eraseDups.length := by
  refine (List.subperm_of_subset (IdMap.nodup_named _) fun x hx => ?_).length_le
  have ⟨m, hm, he⟩ := mem_named_nodeCalls.mp hx
  exact List.mem_eraseDups.mpr (he ▸ h m hm)

-- What a loader has after calls, whichever of their relationships were rejected.
def Settles (all : List Nat) (l : Loader) (calls : List Call) : Prop :=
  ∃ ms, l.Gathers ms ∧ Enlists all ms calls

theorem endpoint_settles (h : Settles all l calls) {x v : Nat} (hx : x ∈ all) (he : l.endpoint x = (.ok v, l')) :
    Settles all l' calls := by
  rw [endpoint] at he
  split at he
  case h_1 =>
    cases he
    exact h
  case h_2 =>
    split at he
    case isFalse => cases he
    case isTrue =>
      obtain ⟨ms, hg, hms⟩ := h
      obtain ⟨nodes, ha, rfl⟩ := addNode_eq_ok.mp he
      exact ⟨_, hg.addNode (m := ⟨x, [], []⟩) ha, hms.bare hx⟩

-- Under an id that is not too many a node is always added.
theorem addNode_settles (h : Settles all l calls) (hn : all.eraseDups.length ≤ Fault.maxNodeCount)
    (hc : c.mention? = some m) (hm : m.external ∈ all) :
    ∃ v l', l.addNode m.external m.labels m.values = (.ok v, l') ∧ Settles all l' (calls ++ [c]) := by
  have ⟨ms, hg, hms⟩ := h
  have hms' := hms.mention hc hm
  have hcalls : nodeCalls (ms ++ [m]) = nodeCalls ms ++ [(m.external, m.labels)] := List.map_append
  have ⟨v, b, ha⟩ := hg.tracks.exists_addNode (hcalls ▸ Nat.le_trans (length_named_le hms'.inside) hn)
  exact ⟨v, _, addNode_eq_ok.mpr ⟨b, ha, rfl⟩, _, hg.addNode ha, hms'⟩

theorem addRelationship_settles (h : Settles all l calls) {t : RelType} {source target : Nat}
    {values : List (String × Float)} (hs : source ∈ all) (ht : target ∈ all) :
    Settles all (l.addRelationship t source target values).2 calls := by
  rcases ha : l.addRelationship t source target values with ⟨_ | _, l'⟩
  case ok =>
    obtain ⟨_, s, l₁, d, l₂, hs₁, hd, rfl⟩ := addRelationship_eq_ok.mp ha
    obtain ⟨ms, hg, hms⟩ := endpoint_settles (endpoint_settles h hs hs₁) ht hd
    exact ⟨ms, hg.congr rfl rfl, hms⟩
  case error =>
    obtain ⟨_, _, rfl⟩ | ⟨_, hs₁ | ⟨s, l₁, hs₁, hd⟩⟩ := addRelationship_eq_error.mp ha
    · exact h
    · exact endpoint_of_error hs₁ ▸ h
    · exact endpoint_of_error hd ▸ endpoint_settles h hs hs₁

theorem attempt_settles (h : Settles all l calls) (hn : all.eraseDups.length ≤ Fault.maxNodeCount)
    (hc : ∀ x ∈ c.names, x ∈ all) : Settles all (l.attempt c) (calls ++ [c]) := by
  cases c
  case addNode external labels values =>
    have ⟨v, l', ha, hl⟩ := addNode_settles (m := ⟨external, labels, values⟩)
      (c := .addNode external labels values) h hn rfl (hc external List.mem_cons_self)
    have hcall : l.attempt (.addNode external labels values) = l' := congrArg Prod.snd ha
    exact hcall ▸ hl
  case addRelationship t source target values =>
    have ⟨ms, hg, hms⟩ := @addRelationship_settles _ _ _ h t source target values
      (hc source List.mem_cons_self) (hc target (List.mem_cons_of_mem _ List.mem_cons_self))
    exact ⟨ms, hg, hms.skip rfl⟩
  all_goals
    have ⟨ms, hg, hms⟩ := h
    exact ⟨ms, hg.congr rfl rfl, hms.skip rfl⟩

theorem foldl_attempt_settles {more : List Call} (h : Settles all l calls)
    (hn : all.eraseDups.length ≤ Fault.maxNodeCount) (hm : ∀ c ∈ more, ∀ x ∈ c.names, x ∈ all) :
    Settles all (more.foldl attempt l) (calls ++ more) := by
  induction more generalizing l calls
  case nil => exact (List.append_nil calls).symm ▸ h
  case cons c more hi =>
    have ⟨hc, hm⟩ := List.forall_mem_cons.mp hm
    have hs := hi (attempt_settles h hn hc) hm
    rwa [List.append_assoc] at hs

-- The ids that calls name are not more than there can be nodes.
def Roomy (calls : List Call) : Prop :=
  (calls.flatMap Call.names).eraseDups.length ≤ Fault.maxNodeCount

theorem attempts_settles (h : Roomy calls) : Settles (calls.flatMap Call.names) (attempts calls) calls := by
  have hempty : Enlists (calls.flatMap Call.names) [] [] :=
    ⟨fun _ => rfl, fun _ _ => rfl, fun _ hm => (nomatch hm), fun _ hm => (nomatch hm)⟩
  exact foldl_attempt_settles ⟨[], empty_gathers, hempty⟩ h fun c hc x hx => List.mem_flatMap.mpr ⟨c, hc, hx⟩

end PropertyGraph.Loader
