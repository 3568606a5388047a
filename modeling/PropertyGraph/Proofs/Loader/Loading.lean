import PropertyGraph.Proofs.Loader.Pending

namespace PropertyGraph.Loader

-- The loader after a call that is accepted.
def call (l : Loader) (c : Call) : Except Fault Loader :=
  Outcome.after (l.perform c)

-- A loader after some calls, all of which were accepted.
def load (calls : List Call) : Except Fault Loader :=
  calls.foldlM call {}

-- The loader after a call, accepted or rejected.
def attempt (l : Loader) (c : Call) : Loader :=
  (l.perform c).2

-- A loader after some calls, whichever of them were rejected.
def attempts (calls : List Call) : Loader :=
  calls.foldl attempt {}

-- The calls that a loader accepts out of these.
def acceptedFrom (l : Loader) : List Call → List Call
  | [] => []
  | c :: calls =>
    match l.call c with
    | .ok _ => c :: acceptedFrom (l.attempt c) calls
    | .error _ => acceptedFrom (l.attempt c) calls

def accepted (calls : List Call) : List Call := acceptedFrom {} calls

-- The relationship of a type that a call adds.
def Call.given? (t : RelType) : Call → Option Given
  | .addRelationship t' source target values => if t' = t then some ⟨source, target, values⟩ else none
  | _ => none

def Call.layout? (t : RelType) : Call → Option Layout
  | .declare t' layout => if t' = t then some layout else none
  | _ => none

-- The relationships of a type in the order they were added.
def givenOf (t : RelType) (calls : List Call) : List Given :=
  calls.filterMap (Call.given? t)

-- The layout that a type was declared with last.
def layoutOf (t : RelType) (calls : List Call) : Option Layout :=
  (calls.filterMap (Call.layout? t)).getLast?

structure Follows (l : Loader) (calls : List Call) : Prop where
  nodes : IdMap.Builder.Gains {} l.nodes
  declared : ∀ t, (l.types.find? t).map (·.layout) = layoutOf t calls
  undeclared : ∀ t, l.types.find? t = none → givenOf t calls = []
  records : ∀ t pending, l.types.find? t = some pending → pending.Records l.nodes (givenOf t calls)

variable {l l' : Loader} {calls : List Call} {c : Call} {t : RelType} {f : Fault} {external node : Nat}
  {labels : List Label} {values : List (String × PropertyValue)}

theorem call_eq_ok : l.call c = .ok l' ↔ ∃ node?, l.perform c = (.ok node?, l') :=
  Outcome.after_eq_ok

theorem call_eq_error : l.call c = .error f ↔ ∃ l', l.perform c = (.error f, l') :=
  Outcome.after_eq_error

theorem call_addNode (l : Loader) (external : Nat) (labels : List Label) (values : List (String × PropertyValue)) :
    l.call (.addNode external labels values) = Outcome.after (l.addNode external labels values) := by
  rw [call, perform]
  obtain ⟨_ | _, _⟩ := l.addNode external labels values <;> rfl

theorem call_addRelationship (l : Loader) (t : RelType) (source target : Nat) (values : List (String × Float)) :
    l.call (.addRelationship t source target values) = Outcome.after (l.addRelationship t source target values) := by
  rw [call, perform]
  obtain ⟨_ | _, _⟩ := l.addRelationship t source target values <;> rfl

theorem addNode_eq_ok : l.addNode external labels values = (.ok node, l') ↔
    ∃ nodes, l.nodes.addNode external labels = (.ok node, nodes) ∧
      { l with nodes, columns := values.foldl (addValue node) l.columns } = l' := by
  rw [addNode]
  obtain ⟨_ | _, nodes⟩ := l.nodes.addNode external labels
  case error => simp
  case ok => grind

theorem addNode_eq_error : l.addNode external labels values = (.error f, l') ↔
    l.nodes.addNode external labels = (.error f, l.nodes) ∧ l = l' := by
  rw [addNode]
  cases h : l.nodes.addNode external labels
  case mk r nodes =>
    cases r
    case ok => simp
    case error f' =>
      have ⟨_, _, _, hn⟩ := IdMap.Builder.addNode_eq_error.mp h
      subst hn
      simp

theorem givenOf_concat (t : RelType) (calls : List Call) (c : Call) :
    givenOf t (calls ++ [c]) = givenOf t calls ++ (c.given? t).toList := by
  rw [givenOf, List.filterMap_append, givenOf]
  cases h : c.given? t <;> simp [h]

theorem layoutOf_concat (t : RelType) (calls : List Call) (c : Call) :
    layoutOf t (calls ++ [c]) = (c.layout? t).or (layoutOf t calls) := by
  rw [layoutOf, List.filterMap_append, layoutOf]
  cases h : c.layout? t <;> simp [h]

theorem Follows.sound (h : l.Follows calls) : l.nodes.Sound :=
  (h.nodes.sound IdMap.Builder.empty_sound).left

theorem empty_follows : Follows {} [] where
  nodes := .refl {}
  declared _ := rfl
  undeclared _ _ := rfl
  records _ _ h := nomatch h

-- More nodes change nothing of what is known of the types.
theorem Follows.gains (h : l.Follows calls) (hg : l.nodes.Gains l'.nodes) (ht : l'.types = l.types) :
    l'.Follows calls where
  nodes := h.nodes.trans hg
  declared t := ht ▸ h.declared t
  undeclared t hf := h.undeclared t (ht ▸ hf)
  records t pending hf := (h.records t pending (ht ▸ hf)).grows (hg.sound h.sound).right

-- Calls that leave the types as they are.
theorem Follows.of_same_types (h : l.Follows calls) (hg : l.nodes.Gains l'.nodes)
    (ht : l'.types = l.types) (hc : ∀ t, c.given? t = none ∧ c.layout? t = none) :
    l'.Follows (calls ++ [c]) where
  nodes := h.nodes.trans hg
  declared t := by
    rw [ht, layoutOf_concat, (hc t).right]
    exact h.declared t
  undeclared t hf := by
    rw [givenOf_concat, (hc t).left, h.undeclared t (ht ▸ hf)]
    rfl
  records t pending hf := by
    rw [givenOf_concat, (hc t).left, Option.toList_none, List.append_nil]
    exact (h.records t pending (ht ▸ hf)).grows (hg.sound h.sound).right

theorem addNode_follows (h : l.Follows calls) (ha : l.addNode external labels values = (.ok node, l')) :
    l'.Follows (calls ++ [.addNode external labels values]) := by
  obtain ⟨nodes, hn, rfl⟩ := addNode_eq_ok.mp ha
  exact h.of_same_types (.of_addNode hn) rfl fun _ => ⟨rfl, rfl⟩

-- A call that changes one type.
theorem Follows.of_insert (h : l.Follows calls) (hg : l.nodes.Gains l'.nodes) {pending : PendingType}
    (ht : l'.types = l.types.insert t pending) (hc : ∀ t' ≠ t, c.given? t' = none ∧ c.layout? t' = none)
    (hl : some pending.layout = layoutOf t (calls ++ [c]))
    (hr : pending.Records l'.nodes (givenOf t (calls ++ [c]))) : l'.Follows (calls ++ [c]) := by
  have hself : l'.types.find? t = some pending := ht ▸ NameMap.find?_insert_self ..
  have hne : ∀ t' ≠ t, l'.types.find? t' = l.types.find? t' := fun t' hne =>
    ht ▸ NameMap.find?_insert_of_ne _ _ hne
  have hgiven : ∀ t' ≠ t, givenOf t' (calls ++ [c]) = givenOf t' calls := fun t' hne => by
    rw [givenOf_concat, (hc t' hne).left, Option.toList_none, List.append_nil]
  refine ⟨h.nodes.trans hg, fun t' => ?declared, fun t' hf => ?undeclared, fun t' pending' hf => ?records⟩
  case declared =>
    by_cases he : t' = t
    case pos => rw [he, hself, ← hl]; rfl
    case neg =>
      rw [hne t' he, layoutOf_concat, (hc t' he).right]
      exact h.declared t'
  case undeclared =>
    by_cases he : t' = t
    case pos =>
      rw [he, hself] at hf
      cases hf
    case neg => exact (hgiven t' he).trans (h.undeclared t' (hne t' he ▸ hf))
  case records =>
    by_cases he : t' = t
    case pos =>
      have hp : pending = pending' := Option.some.inj (hself.symm.trans (he ▸ hf))
      exact hp ▸ he ▸ hr
    case neg => exact hgiven t' he ▸ (h.records t' pending' (hne t' he ▸ hf)).grows (hg.sound h.sound).right

theorem declare_follows (h : l.Follows calls) (t : RelType) (layout : Layout) :
    (l.declare t layout).Follows (calls ++ [.declare t layout]) := by
  have hgiven : givenOf t (calls ++ [.declare t layout]) = givenOf t calls := by
    rw [givenOf_concat]
    exact List.append_nil _
  refine h.of_insert (.refl _) (NameMap.alter_eq ..) (fun t' hne => ⟨rfl, if_neg hne.symm⟩)
    ?layout ?records
  case layout =>
    rw [layoutOf_concat, Call.layout?, if_pos rfl]
    cases l.types.find? t <;> rfl
  case records =>
    rw [hgiven]
    cases hf : l.types.find? t
    case none => exact h.undeclared t hf ▸ ⟨.nil, .nil⟩
    case some pending =>
      have hr := h.records t pending hf
      exact ⟨hr.distinct, hr.edges⟩

-- What stays as it is while an end of a relationship is looked up, which may be added to the nodes.
structure Enters (l l' : Loader) : Prop where
  nodes : l.nodes.Gains l'.nodes
  types : l'.types = l.types
  options : l'.options = l.options
  implicitNodes : l'.implicitNodes = l.implicitNodes

theorem Enters.refl (l : Loader) : l.Enters l :=
  ⟨.refl _, rfl, rfl, rfl⟩

theorem Enters.trans {l'' : Loader} (h : l.Enters l') (h' : l'.Enters l'') : l.Enters l'' :=
  ⟨h.nodes.trans h'.nodes, h'.types.trans h.types, h'.options.trans h.options,
    h'.implicitNodes.trans h.implicitNodes⟩

theorem addNode_enters (ha : l.addNode external labels [] = (.ok node, l')) : l.Enters l' := by
  obtain ⟨nodes, hn, rfl⟩ := addNode_eq_ok.mp ha
  exact ⟨.of_addNode hn, rfl, rfl, rfl⟩

theorem endpoint_of_error (h : l.endpoint external = (.error f, l')) : l' = l := by
  rw [endpoint] at h
  split at h
  case h_1 => cases h
  case h_2 =>
    split at h
    case isTrue => exact (addNode_eq_error.mp h).right.symm
    case isFalse =>
      cases h
      rfl

theorem endpoint_enters (h : l.endpoint external = (.ok node, l')) : l.Enters l' := by
  rw [endpoint] at h
  split at h
  case h_1 =>
    cases h
    exact .refl l
  case h_2 =>
    split at h
    case isTrue => exact addNode_enters h
    case isFalse => cases h

-- The end of a relationship is a node from then on.
theorem id?_endpoint (hn : l.nodes.Sound) (h : l.endpoint external = (.ok node, l')) :
    l'.nodes.externals.id? node = some external := by
  rw [endpoint] at h
  split at h
  case h_1 hi =>
    cases h
    exact Numbering.number?_eq_some.mp hi
  case h_2 =>
    split at h
    case isFalse => cases h
    case isTrue =>
      obtain ⟨nodes, ha, rfl⟩ := addNode_eq_ok.mp h
      exact (IdMap.Builder.addNode_sound hn ha).right.right

theorem addRelationship_eq_ok {source target : Nat} {values : List (String × Float)} :
    l.addRelationship t source target values = (.ok (), l') ↔ l.types.contains t = true ∧
      ∃ s l₁ d l₂, l.endpoint source = (.ok s, l₁) ∧ l₁.endpoint target = (.ok d, l₂) ∧
        { l₂ with types := l₂.types.alter t fun pending? =>
            (pending?.getD { layout := default }).add s d values } = l' := by
  rw [addRelationship]
  cases l.types.contains t
  case false => simp
  case true =>
    rcases l.endpoint source with ⟨_ | s, l₁⟩
    case error => simp
    case ok =>
      rcases hd : l₁.endpoint target with ⟨_ | d, l₂⟩ <;> simp [hd]

-- The source is a node by then if it was known or could be added.
theorem addRelationship_eq_error {source target : Nat} {values : List (String × Float)} :
    l.addRelationship t source target values = (.error f, l') ↔
      l.types.contains t = false ∧ f = .undeclaredType t l.types.keys ∧ l' = l ∨
      l.types.contains t = true ∧ (l.endpoint source = (.error f, l') ∨
        ∃ s l₁, l.endpoint source = (.ok s, l₁) ∧ l₁.endpoint target = (.error f, l')) := by
  rw [addRelationship]
  cases l.types.contains t
  case false => simp [eq_comm]
  case true =>
    rcases l.endpoint source with ⟨_ | s, l₁⟩
    case error => simp
    case ok =>
      rcases hd : l₁.endpoint target with ⟨_ | d, l₂⟩ <;> simp [hd]

theorem addRelationship_follows (h : l.Follows calls) {source target : Nat} {values : List (String × Float)}
    (ha : l.addRelationship t source target values = (.ok (), l')) :
    l'.Follows (calls ++ [.addRelationship t source target values]) := by
  obtain ⟨hc, s, l₁, d, l₂, hs, hd, rfl⟩ := addRelationship_eq_ok.mp ha
  have ⟨pending, hp⟩ := NameMap.contains_iff.mp hc
  have hl₁ := endpoint_enters hs
  have hl₂ := endpoint_enters hd
  have hl := hl₁.trans hl₂
  have ⟨hn₁, _⟩ := hl₁.nodes.sound h.sound
  have ⟨_, hgrows⟩ := hl.nodes.sound h.sound
  have hsource := (hl₂.nodes.sound hn₁).right.ids _ _ (id?_endpoint h.sound hs)
  have hr := (h.records t pending hp).grows hgrows
  have hgiven : givenOf t (calls ++ [.addRelationship t source target values]) =
      givenOf t calls ++ [⟨source, target, values⟩] := by
    rw [givenOf_concat, Call.given?, if_pos rfl]
    rfl
  have htypes : (l₂.types.alter t fun pending? => (pending?.getD { layout := default }).add s d values) =
      l.types.insert t (pending.add s d values) := by
    simp only [NameMap.alter_eq, hl.types, hp, Option.getD_some]
  refine h.of_insert hl.nodes htypes (fun t' hne => ⟨if_neg hne.symm, rfl⟩) ?layout ?records
  case layout =>
    rw [layoutOf_concat]
    have hl := h.declared t
    rw [hp] at hl
    exact (congrArg some (PendingType.numberAll_grows pending values).left.layout).trans hl
  case records =>
    rw [hgiven]
    exact PendingType.add_records (g := ⟨source, target, values⟩) hr hsource (id?_endpoint hn₁ hd)

theorem call_follows (h : l.Follows calls) (hc : l.call c = .ok l') : l'.Follows (calls ++ [c]) := by
  cases c
  case addNode external labels values =>
    have ⟨_, hr⟩ := Outcome.after_eq_ok.mp (call_addNode .. ▸ hc)
    exact addNode_follows h hr
  case addRelationship t source target values =>
    have ⟨_, hr⟩ := Outcome.after_eq_ok.mp (call_addRelationship .. ▸ hc)
    exact addRelationship_follows h hr
  case declare t layout => exact Except.ok.inj hc ▸ declare_follows h t layout
  all_goals
    exact Except.ok.inj hc ▸ h.of_same_types (.refl _) rfl fun _ => ⟨rfl, rfl⟩

theorem foldlM_call_follows {more : List Call} (h : l.Follows calls) (hm : more.foldlM call l = .ok l') :
    l'.Follows (calls ++ more) := by
  induction more generalizing l calls
  case nil =>
    have hm : l = l' := Except.ok.inj hm
    rw [List.append_nil]
    exact hm ▸ h
  case cons c more hi =>
    have ⟨l₁, hc, hm⟩ := Outcome.bind_eq_ok.mp hm
    have hf := hi (call_follows h hc) hm
    rwa [List.append_assoc] at hf

theorem load_follows (h : load calls = .ok l) : l.Follows calls :=
  foldlM_call_follows empty_follows h

theorem attempt_of_ok (h : l.call c = .ok l') : l.attempt c = l' := by
  obtain ⟨_, hp⟩ := call_eq_ok.mp h
  rw [attempt, hp]

-- A call that was rejected may leave an end of a relationship behind.
theorem attempt_enters (h : l.call c = .error f) : l.Enters (l.attempt c) := by
  cases c
  case addNode external labels values =>
    obtain ⟨l', hr⟩ := Outcome.after_eq_error.mp (call_addNode .. ▸ h)
    have he : l.attempt (.addNode external labels values) = (l.addNode external labels values).2 := rfl
    rw [he, hr]
    exact (addNode_eq_error.mp hr).right ▸ .refl l
  case addRelationship t source target values =>
    obtain ⟨l', hr⟩ := Outcome.after_eq_error.mp (call_addRelationship .. ▸ h)
    have he : l.attempt (.addRelationship t source target values) = (l.addRelationship t source target values).2 := rfl
    rw [he, hr]
    obtain ⟨_, _, he⟩ | ⟨_, hs | ⟨s, l₁, hs, hd⟩⟩ := addRelationship_eq_error.mp hr
    · exact he ▸ .refl l
    · exact endpoint_of_error hs ▸ .refl l
    · exact endpoint_of_error hd ▸ endpoint_enters hs
  all_goals cases h

-- Only a call for options changes them.
theorem attempt_options (l : Loader) (c : Call) :
    (l.attempt c).options = l.options ∨ c = .options (l.attempt c).options := by
  cases hc : l.call c
  case error => exact .inl (attempt_enters hc).options
  case ok l' =>
    rw [attempt_of_ok hc]
    cases c
    case options => exact Except.ok.inj hc ▸ .inr rfl
    case addRelationship =>
      have ⟨_, hr⟩ := Outcome.after_eq_ok.mp (call_addRelationship .. ▸ hc)
      obtain ⟨_, _, _, _, _, hs, hd, rfl⟩ := addRelationship_eq_ok.mp hr
      exact .inl ((endpoint_enters hs).trans (endpoint_enters hd)).options
    case addNode =>
      have ⟨_, hr⟩ := Outcome.after_eq_ok.mp (call_addNode .. ▸ hc)
      obtain ⟨_, _, rfl⟩ := addNode_eq_ok.mp hr
      exact .inl rfl
    all_goals exact Except.ok.inj hc ▸ .inl rfl

theorem attempts_options {P : StoreOptions → Prop} (hp : P {}) (h : ∀ options, .options options ∈ calls → P options) :
    P (attempts calls).options := by
  have hp : P ({} : Loader).options := hp
  refine List.foldlRecOn (motive := fun l => P l.options) calls attempt hp fun l hl c hc => ?_
  cases attempt_options l c
  case inl hsame => exact hsame ▸ hl
  case inr hnew => exact h _ (hnew ▸ hc)

-- Nothing is left of a relationship of a type that was not declared.
theorem attempt_undeclared (ht : l.types.contains t = false) (source target : Nat) (values : List (String × Float)) :
    l.call (.addRelationship t source target values) = .error (.undeclaredType t l.types.keys) ∧
      l.attempt (.addRelationship t source target values) = l := by
  have hr : l.addRelationship t source target values = (.error (.undeclaredType t l.types.keys), l) :=
    addRelationship_eq_error.mpr (.inl ⟨ht, rfl, rfl⟩)
  exact ⟨(call_addRelationship ..).trans (Outcome.after_eq_error.mpr ⟨l, hr⟩), congrArg Prod.snd hr⟩

-- What a loader knows of the types after some calls are those that it accepted.
theorem foldl_attempt_follows {more : List Call} (h : l.Follows calls) :
    (more.foldl attempt l).Follows (calls ++ l.acceptedFrom more) := by
  induction more generalizing l calls
  case nil => exact (List.append_nil calls).symm ▸ h
  case cons c more hi =>
    rw [List.foldl_cons, acceptedFrom]
    cases hc : l.call c
    case ok l' =>
      have hf := hi (call_follows h hc)
      rw [List.append_assoc] at hf
      exact (attempt_of_ok hc).symm ▸ hf
    case error =>
      have he := attempt_enters hc
      exact hi (h.gains he.nodes he.types)

theorem attempts_follows (calls : List Call) : (attempts calls).Follows (accepted calls) :=
  foldl_attempt_follows empty_follows

theorem acceptedFrom_sublist (l : Loader) (calls : List Call) : (l.acceptedFrom calls).Sublist calls := by
  induction calls generalizing l
  case nil => exact .slnil
  case cons c calls hi =>
    rw [acceptedFrom]
    split
    case h_1 => exact (hi _).cons_cons c
    case h_2 => exact (hi _).cons c

theorem length_accepted_le (calls : List Call) : (accepted calls).length ≤ calls.length :=
  (acceptedFrom_sublist {} calls).length_le

theorem attempts_of_load (h : load calls = .ok l) : attempts calls = l ∧ accepted calls = calls := by
  have hfold : ∀ {l₀ : Loader} {calls : List Call}, calls.foldlM call l₀ = .ok l →
      calls.foldl attempt l₀ = l ∧ l₀.acceptedFrom calls = calls := by
    intro l₀ calls
    induction calls generalizing l₀
    case nil => exact fun h => ⟨Except.ok.inj h, rfl⟩
    case cons c calls hi =>
      intro h
      have ⟨l₁, hc, h⟩ := Outcome.bind_eq_ok.mp h
      have ⟨hl, hcalls⟩ := hi h
      rw [List.foldl_cons, acceptedFrom, hc, attempt_of_ok hc, hl]
      exact ⟨rfl, congrArg (c :: ·) hcalls⟩
  exact hfold h

end PropertyGraph.Loader
