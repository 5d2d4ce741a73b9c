import Mathlib.Data.List.Induction
import MessageDispatch.Proofs.Execution
import MessageDispatch.Proofs.Lists
import MessageDispatch.Protocol
import MessageDispatch.Registration

/-! Registering handlers one after another. The registrations that were accepted tell what the
subscribers are: there is one for each binding, in the order in which the bindings came up, with the
calls that were registered on it and the retry policy that the first of them decided. -/
namespace MessageDispatch

/-! ## Lists by key -/

section
variable {β γ : Type} {l : List β} {b : β} {i : Nat}

theorem eraseDups_concat [DecidableEq β] (l : List β) (b : β) :
    (l ++ [b]).eraseDups = if b ∈ l then l.eraseDups else l.eraseDups ++ [b] := by
  rw [List.eraseDups_append]
  by_cases hb : b ∈ l
  · simp [List.removeAll, hb]
  · simp [List.removeAll, hb, List.eraseDups_cons]

theorem nodup_eraseDups [DecidableEq β] (l : List β) : l.eraseDups.Nodup := by
  induction l using List.reverseRecOn with
  | nil => simp
  | append_singleton l b ih =>
    rw [eraseDups_concat]
    split
    · exact ih
    · rename_i hb
      exact nodup_concat ih (by simpa using hb)

/-- A view that changes for one entry only. -/
theorem map_eq_set {f f' : β → γ} (hl : l.Nodup) (hb : l[i]? = some b)
    (hothers : ∀ c, c ≠ b → f' c = f c) : l.map f' = (l.map f).set i (f' b) := by
  refine List.ext_getElem? fun j => ?_
  rw [List.getElem?_map, List.getElem?_set, List.length_map, List.getElem?_map]
  by_cases hij : i = j
  · subst hij
    rw [if_pos rfl, if_pos (lt_length_of_getElem? hb), hb, Option.map_some]
  · rw [if_neg hij]
    cases hc : l[j]? with
    | none => rfl
    | some c =>
      have hne : c ≠ b := by
        rintro rfl
        exact hij ((List.getElem?_inj (lt_length_of_getElem? hb) hl).mp (hb.trans hc.symm))
      exact congrArg some (hothers c hne)

end

/-! ## What registrations decide -/

variable {P : Protocol} {κ : Type} {config : GroupConfig P.Route κ}

/-- What registrations decide of a subscriber for good. -/
structure Terms (P : Protocol) (κ : Type) where
  binding : P.Binding
  retry : RetryPolicy
  calls : List (Call P.Route κ)

def Subscriber.terms (s : Subscriber P κ) : Terms P κ := ⟨s.binding, s.retry, s.calls⟩

def Engine.roster (e : Engine P κ) : List (Terms P κ) := e.subscribers.map (·.terms)

/-- What these registrations decide of the subscriber of a binding. -/
def Registration.terms (config : GroupConfig P.Route κ) (rs : List (Registration P κ))
    (b : P.Binding) : Terms P κ :=
  ⟨b, ((rs.find? (·.binding = b)).bind (·.retry)).getD config.settings.defaultRetry,
    (rs.filter (·.binding = b)).map (·.call config)⟩

/-- The subscribers that these registrations make. -/
def Registration.roster (config : GroupConfig P.Route κ) (rs : List (Registration P κ)) :
    List (Terms P κ) :=
  (rs.map (·.binding)).eraseDups.map (terms config rs)

namespace Registration

variable {rs : List (Registration P κ)} {r : Registration P κ} {b : P.Binding}

theorem terms_concat_of_ne (h : b ≠ r.binding) :
    terms config (rs ++ [r]) b = terms config rs b := by
  simp [terms, Ne.symm h]

/-- The first registration on a binding decides the policy. -/
theorem terms_concat_first (h : r.binding ∉ rs.map (·.binding)) :
    terms config (rs ++ [r]) r.binding =
      ⟨r.binding, r.retry.getD config.settings.defaultRetry, [r.call config]⟩ := by
  have hothers : ∀ r' ∈ rs, r'.binding ≠ r.binding := by
    intro r' hr' hb
    exact h (List.mem_map.mpr ⟨r', hr', hb⟩)
  have hnone : rs.find? (·.binding = r.binding) = none := by simpa using hothers
  have hnil : rs.filter (·.binding = r.binding) = [] := by simpa using hothers
  simp [terms, hnone, hnil]

theorem find?_isSome_of_mem (h : b ∈ rs.map (·.binding)) :
    ∃ first, rs.find? (·.binding = b) = some first := by
  obtain ⟨r, hr, hb⟩ := List.mem_map.mp h
  exact Option.isSome_iff_exists.mp (List.find?_isSome.mpr ⟨r, hr, decide_eq_true hb⟩)

/-- A further registration adds a call. -/
theorem terms_concat_further (h : r.binding ∈ rs.map (·.binding)) :
    terms config (rs ++ [r]) r.binding =
      { terms config rs r.binding with
        calls := (terms config rs r.binding).calls ++ [r.call config] } := by
  obtain ⟨first, hfirst⟩ := find?_isSome_of_mem h
  simp [terms, hfirst]

theorem roster_concat_first (h : r.binding ∉ rs.map (·.binding)) :
    roster config (rs ++ [r]) = roster config rs ++
      [⟨r.binding, r.retry.getD config.settings.defaultRetry, [r.call config]⟩] := by
  have hothers : ∀ b ∈ (rs.map (·.binding)).eraseDups,
      terms config (rs ++ [r]) b = terms config rs b := by
    intro b hb
    refine terms_concat_of_ne ?_
    rintro rfl
    exact h (List.mem_eraseDups.mp hb)
  rw [roster, List.map_append, List.map_singleton, eraseDups_concat, if_neg h, List.map_append,
    List.map_singleton, terms_concat_first h, List.map_congr_left hothers]
  rfl

theorem roster_concat_further {i : Nat} {t : Terms P κ} (hi : (roster config rs)[i]? = some t)
    (hb : t.binding = r.binding) :
    roster config (rs ++ [r]) =
      (roster config rs).set i { t with calls := t.calls ++ [r.call config] } := by
  have hi : ((rs.map (·.binding)).eraseDups.map (terms config rs))[i]? = some t := hi
  rw [List.getElem?_map] at hi
  obtain ⟨b, hbi, rfl⟩ := Option.map_eq_some_iff.mp hi
  have hb : b = r.binding := hb
  subst hb
  have hknown : r.binding ∈ rs.map (·.binding) := List.mem_eraseDups.mp (List.mem_of_getElem? hbi)
  rw [← terms_concat_further hknown, roster, List.map_append, List.map_singleton,
    eraseDups_concat, if_pos hknown]
  exact map_eq_set (nodup_eraseDups _) hbi fun b hb => terms_concat_of_ne hb

theorem mem_roster_iff {t : Terms P κ} : t ∈ roster config rs ↔
    t.binding ∈ rs.map (·.binding) ∧ t = terms config rs t.binding := by
  constructor
  · intro ht
    obtain ⟨b, hb, rfl⟩ := List.mem_map.mp ht
    exact ⟨List.mem_eraseDups.mp hb, rfl⟩
  · rintro ⟨hb, ht⟩
    exact List.mem_map.mpr ⟨t.binding, List.mem_eraseDups.mpr hb, ht.symm⟩

theorem map_binding_roster :
    (roster config rs).map (·.binding) = (rs.map (·.binding)).eraseDups := by
  rw [roster, List.map_map]
  exact List.map_id _

end Registration

/-! ## One attempt -/

namespace Engine

variable {recording : Bool} {r : Registration P κ} {e e' e'' e₀ : Engine P κ}

/-- What an attempt to register a handler can come to. -/
inductive Tries (config : GroupConfig P.Route κ) (recording : Bool) (r : Registration P κ)
    (e : Engine P κ) : Except RegistrationError Unit × List CallHandle × Engine P κ → Prop where
  | joined {i : Nat} {s : Subscriber P κ} (hs : e.subscribers[i]? = some s)
      (hbinding : s.binding = r.binding) (hretry : ∀ policy ∈ r.retry, policy = s.retry) :
      Tries config recording r e (.ok (), [⟨i, s.calls.length⟩], { e.log r.remarks with
        subscribers := e.subscribers.set i (s.addCall recording (r.call config)) })
  | created (hnew : ∀ s ∈ e.subscribers, s.binding ≠ r.binding) :
      Tries config recording r e (.ok (), [⟨e.subscribers.length, 0⟩], { e with
        subscribers := e.subscribers ++
          [(r.subscriber config).addCall recording (r.call config)] })
  | refused {s : Subscriber P κ} {policy : RetryPolicy} (hs : s ∈ e.subscribers)
      (hbinding : s.binding = r.binding) (hretry : r.retry = some policy)
      (hother : policy ≠ s.retry) :
      Tries config recording r e (.error (.conflictingRetry s.name s.retry policy), [], e)

theorem tries (config : GroupConfig P.Route κ) (recording : Bool) (r : Registration P κ)
    (e : Engine P κ) : Tries config recording r e (registerAll config recording [r] e) := by
  unfold registerAll register
  cases hfind : e.find? r.binding with
  | none =>
    refine .created fun s hs => ?_
    exact of_decide_eq_false (List.findIdx?_eq_none_iff.mp hfind s hs)
  | some i =>
    obtain ⟨hi, hbinding, -⟩ := List.findIdx?_eq_some_iff_getElem.mp hfind
    have hs : e.subscribers[i]? = some e.subscribers[i] := List.getElem?_eq_getElem hi
    have hbinding := of_decide_eq_true hbinding
    simp only [hs]
    cases hconflict : r.conflicts e.subscribers[i].retry with
    | some policy =>
      obtain ⟨hretry, hother⟩ := Option.filter_eq_some_iff.mp hconflict
      exact .refused (List.getElem_mem hi) hbinding hretry (of_decide_eq_true hother)
    | none =>
      simp only [modify_eq_set hs]
      refine .joined hs hbinding fun policy hpolicy => ?_
      have hkept := Option.filter_eq_none_iff.mp hconflict policy hpolicy
      simpa using hkept

/-! ## Many attempts -/

/-- Handlers that were to be registered, each with what came of it. -/
abbrev Attempts (P : Protocol) (κ : Type) : Type :=
  List (Registration P κ × Except RegistrationError Unit)

def accepted (log : Attempts P κ) : List (Registration P κ) :=
  (log.filter (·.2.isOk)).map (·.1)

/-- Handlers are tried to be registered one after another. In between anything may happen that has
no say in what registrations decide. -/
inductive Registers (config : GroupConfig P.Route κ) (e : Engine P κ) :
    Attempts P κ → Engine P κ → Prop where
  | start : Registers config e [] e
  | tried {log : Attempts P κ} {e' e'' : Engine P κ} {recording : Bool} {r : Registration P κ}
      {result : Except RegistrationError Unit} {handles : List CallHandle}
      (h : Registers config e log e')
      (htried : registerAll config recording [r] e' = (result, handles, e'')) :
      Registers config e (log ++ [(r, result)]) e''
  | meanwhile {log : Attempts P κ} {e' e'' : Engine P κ} (h : Registers config e log e')
      (hroster : e''.roster = e'.roster) : Registers config e log e''

theorem Registers.attempt {log : Attempts P κ} (h : Registers config e log e') (recording : Bool)
    (r : Registration P κ) : Registers config e
      (log ++ [(r, (registerAll config recording [r] e').1)])
      (registerAll config recording [r] e').2.2 :=
  h.tried rfl

theorem accepted_concat_ok (log : Attempts P κ) (r : Registration P κ) :
    accepted (log ++ [(r, .ok ())]) = accepted log ++ [r] := by
  rw [accepted, List.filter_append, List.map_append]
  rfl

theorem accepted_concat_error (log : Attempts P κ) (r : Registration P κ)
    (err : RegistrationError) : accepted (log ++ [(r, .error err)]) = accepted log := by
  rw [accepted, List.filter_append, List.map_append]
  exact List.append_nil _

theorem bindings_of_roster {rs : List (Registration P κ)}
    (h : e.roster = Registration.roster config rs) :
    e.subscribers.map (·.binding) = (rs.map (·.binding)).eraseDups := by
  have hbindings : e.roster.map (·.binding) = (rs.map (·.binding)).eraseDups := by
    rw [h, Registration.map_binding_roster]
  rw [← hbindings, roster, List.map_map]
  rfl

/-- A handler that is accepted is one more to be told by. -/
theorem Tries.roster {handles : List CallHandle} {rs : List (Registration P κ)}
    (h : Tries config recording r e (.ok (), handles, e'))
    (hroster : e.roster = Registration.roster config rs) :
    e'.roster = Registration.roster config (rs ++ [r]) := by
  cases h with
  | @joined i s hs hbinding hretry =>
    have hi : (Registration.roster config rs)[i]? = some s.terms := by
      rw [← hroster, Engine.roster, List.getElem?_map, hs, Option.map_some]
    rw [Registration.roster_concat_further hi hbinding, ← hroster]
    exact List.map_set
  | created hnew =>
    have hnew : r.binding ∉ rs.map (·.binding) := by
      intro hmem
      rw [← List.mem_eraseDups, ← bindings_of_roster hroster] at hmem
      obtain ⟨s, hs, hbinding⟩ := List.mem_map.mp hmem
      exact hnew s hs hbinding
    rw [Registration.roster_concat_first hnew, ← hroster]
    exact List.map_append

theorem Registers.roster_eq {log : Attempts P κ} (h : Registers config e₀ log e)
    (h₀ : e₀.subscribers = []) : e.roster = Registration.roster config (accepted log) := by
  induction h with
  | start =>
    rw [roster, h₀]
    rfl
  | meanwhile h hroster ih => rw [hroster, ih]
  | @tried log e e' recording r result handles h htried ih =>
    have htries := tries config recording r e
    rw [htried] at htries
    cases result with
    | ok done =>
      rw [accepted_concat_ok]
      exact htries.roster ih
    | error err =>
      rw [accepted_concat_error, ← ih]
      cases htries
      rfl

/-- What registrations have decided stays, and they add to it. -/
def Extends (e e' : Engine P κ) : Prop :=
  ∀ (i : Nat) (s : Subscriber P κ), e.subscribers[i]? = some s →
    ∃ s' : Subscriber P κ, e'.subscribers[i]? = some s' ∧
      s'.binding = s.binding ∧ s'.retry = s.retry ∧ s.calls <+: s'.calls

theorem Extends.refl (e : Engine P κ) : Extends e e :=
  fun _ s hs => ⟨s, hs, rfl, rfl, List.prefix_refl _⟩

theorem Extends.trans (h : Extends e e') (h' : Extends e' e'') : Extends e e'' := by
  intro i s hs
  obtain ⟨s', hs', hbinding, hretry, hcalls⟩ := h i s hs
  obtain ⟨s'', hs'', hbinding', hretry', hcalls'⟩ := h' i s' hs'
  exact ⟨s'', hs'', hbinding'.trans hbinding, hretry'.trans hretry, hcalls.trans hcalls'⟩

theorem Extends.of_roster (h : e'.roster = e.roster) : Extends e e' := by
  intro i s hs
  have hi : e'.roster[i]? = some s.terms := by
    rw [h, roster, List.getElem?_map, hs, Option.map_some]
  rw [roster, List.getElem?_map] at hi
  obtain ⟨s', hs', hterms⟩ := Option.map_eq_some_iff.mp hi
  obtain ⟨hbinding, hretry, hcalls⟩ := Terms.mk.inj hterms
  exact ⟨s', hs', hbinding, hretry, hcalls ▸ List.prefix_refl _⟩

theorem Tries.extends {result : Except RegistrationError Unit} {handles : List CallHandle}
    (h : Tries config recording r e (result, handles, e')) : Extends e e' := by
  cases h with
  | refused => exact .refl _
  | created =>
    intro i s hs
    exact ⟨s, getElem?_concat_iff.mpr (.inl hs), rfl, rfl, List.prefix_refl _⟩
  | @joined i s hs =>
    intro j s' hs'
    by_cases hj : j = i
    · subst hj
      obtain rfl := Option.some.inj (hs.symm.trans hs')
      exact ⟨_, (getElem?_set_iff hs).mpr (.inl ⟨rfl, rfl⟩), rfl, rfl, List.prefix_append ..⟩
    · exact ⟨s', (getElem?_set_iff hs).mpr (.inr ⟨hj, hs'⟩), rfl, rfl, List.prefix_refl _⟩

theorem Registers.extends {log : Attempts P κ} (h : Registers config e log e') :
    Extends e e' := by
  induction h with
  | start => exact .refl _
  | meanwhile h hroster ih => exact ih.trans (.of_roster hroster)
  | @tried log e e' recording r result handles h htried ih =>
    have htries := tries config recording r e
    rw [htried] at htries
    exact ih.trans htries.extends

/-- An attempt fails if the binding has a subscriber with another policy than the one that is asked
for, and for no other reason. -/
theorem fails_iff (hdistinct : (e.subscribers.map (·.binding)).Nodup) :
    (∃ err, (registerAll config recording [r] e).1 = .error err) ↔
      ∃ s ∈ e.subscribers, s.binding = r.binding ∧ ∃ policy ∈ r.retry, policy ≠ s.retry := by
  have htries := tries config recording r e
  generalize registerAll config recording [r] e = after at htries
  cases htries with
  | @joined i s hs hbinding hretry =>
    refine iff_of_false nofun ?_
    rintro ⟨s', hs', hbinding', policy, hpolicy, hother⟩
    obtain ⟨j, hj⟩ := List.getElem?_of_mem hs'
    obtain rfl : i = j := eq_of_nodup_map hdistinct hs hj (hbinding.trans hbinding'.symm)
    obtain rfl := Option.some.inj (hs.symm.trans hj)
    exact hother (hretry policy hpolicy)
  | created hnew =>
    refine iff_of_false nofun ?_
    rintro ⟨s, hs, hbinding, -⟩
    exact hnew s hs hbinding
  | @refused s policy hs hbinding hretry hother =>
    exact iff_of_true ⟨_, rfl⟩ ⟨s, hs, hbinding, policy, hretry, hother⟩

theorem unchanged_of_fails {err : RegistrationError}
    (h : (registerAll config recording [r] e).1 = .error err) :
    (registerAll config recording [r] e).2.2 = e := by
  have htries := tries config recording r e
  generalize registerAll config recording [r] e = after at htries h
  cases htries with
  | refused => rfl
  | _ => cases h

/-- What a group has come to after these attempts. -/
structure Partitioned (config : GroupConfig P.Route κ) (log : Attempts P κ) (e : Engine P κ) :
    Prop where
  distinct : (e.subscribers.map (·.binding)).Nodup
  /-- Subscribers come in the order in which their bindings were accepted first. -/
  bindings : e.subscribers.map (·.binding) = ((accepted log).map (·.binding)).eraseDups
  /-- The calls are the handlers that were accepted for the binding, each within the middlewares of
  the group and then its own. -/
  calls : ∀ s ∈ e.subscribers,
    s.calls = ((accepted log).filter (·.binding = s.binding)).map fun r =>
      { body := .handler (config.processing ++ r.processing) r.handler
        filter := r.filter
        decoder := r.decoder
        targets := r.targets
        info := ⟨r.name, r.description, r.payload⟩ }
  retry : ∀ s ∈ e.subscribers, ∃ first, (accepted log).find? (·.binding = s.binding) = some first ∧
    s.retry = first.retry.getD config.settings.defaultRetry
  fails_iff : ∀ recording r, (∃ err, (registerAll config recording [r] e).1 = .error err) ↔
    ∃ s ∈ e.subscribers, s.binding = r.binding ∧ ∃ policy ∈ r.retry, policy ≠ s.retry
  unchanged : ∀ recording r err, (registerAll config recording [r] e).1 = .error err →
    (registerAll config recording [r] e).2.2 = e

theorem partitioned_of_roster {log : Attempts P κ}
    (h : e.roster = Registration.roster config (accepted log)) : Partitioned config log e := by
  have hterms : ∀ s ∈ e.subscribers, s.binding ∈ (accepted log).map (·.binding) ∧
      s.terms = Registration.terms config (accepted log) s.binding := by
    intro s hs
    have hmem : s.terms ∈ e.roster := List.mem_map.mpr ⟨s, hs, rfl⟩
    rw [h] at hmem
    exact Registration.mem_roster_iff.mp hmem
  have hdistinct : (e.subscribers.map (·.binding)).Nodup := by
    rw [bindings_of_roster h]
    exact nodup_eraseDups _
  exact
    { distinct := hdistinct
      bindings := bindings_of_roster h
      calls := fun s hs => congrArg Terms.calls (hterms s hs).2
      retry := by
        intro s hs
        obtain ⟨hmem, heq⟩ := hterms s hs
        obtain ⟨first, hfirst⟩ := Registration.find?_isSome_of_mem hmem
        refine ⟨first, hfirst, (congrArg Terms.retry heq).trans ?_⟩
        simp [Registration.terms, hfirst]
      fails_iff := fun _ _ => fails_iff hdistinct
      unchanged := fun _ _ _ => unchanged_of_fails }

/-! ## What has no say -/

theorem roster_congr (h : ∀ i, e'.subscriber? (.member i) = e.subscriber? (.member i)) :
    e'.roster = e.roster :=
  congrArg (List.map Subscriber.terms) (List.ext_getElem? h)

theorem roster_updateSubscriber {f : Subscriber P κ → Subscriber P κ}
    (hf : ∀ s, (f s).terms = s.terms) (ref : SubscriberRef) :
    (e.updateSubscriber ref f).roster = e.roster := by
  cases ref with
  | inbox => rfl
  | member i =>
    show (e.subscribers.modify i f).map Subscriber.terms = e.subscribers.map Subscriber.terms
    cases hs : e.subscribers[i]? with
    | none => rw [List.modify_eq_self (List.getElem?_eq_none_iff.mp hs)]
    | some s =>
      rw [modify_eq_set hs]
      exact map_set_eq hs (hf s)

/-- The processing of messages changes nothing that registrations decide. -/
theorem roster_execProcessing (op : Processing.Op P.Route κ) (scope : Scope) :
    (execProcessing op (e, scope)).2.1.roster = e.roster := by
  cases op with
  | publishing op =>
    exact congrArg (List.map Subscriber.terms) (execPublishing_keeps op e scope.item).1
  | settle action =>
    exact roster_congr fun i => (subscriber?_setAcker ..).trans (subscriber?_settle ..)
  | recordBody | recordForwarded | close | enter =>
    refine roster_updateSubscriber ?_ _
    exact fun _ => rfl
  | exit id outcome =>
    let ended := e.ending scope id outcome
    show ((ended.broker.setAcker scope.delivery ended.acker).updateSubscriber scope.subscriber
      ({ · with watcher := ended.watcher })).roster = _
    refine (roster_updateSubscriber ?_ _).trans ?_
    · exact fun _ => rfl
    · exact roster_congr fun i => (subscriber?_setAcker ..).trans (subscriber?_ending ..)
  | settlement | log | calls | resolve => rfl

/-- So messages may be processed between one registration and the next. -/
theorem Registers.performed {log : Attempts P κ} {others : Engine P κ → Engine P κ → Prop}
    {scope : Scope} {t : List (Event (Processing P.Route κ))} {st : Engine P κ × Scope}
    (h : Registers config e₀ log e) (hothers : ∀ e e', others e e' → e'.roster = e.roster)
    (hperformed : Performed others (e, scope) t st) : Registers config e₀ log st.1 := by
  generalize hst : (e, scope) = st₀ at hperformed
  induction hperformed generalizing e scope with
  | nil =>
    subst hst
    exact h
  | @cons e e₁ scope op t st hmeanwhile rest ih =>
    cases hst
    exact ih ((h.meanwhile (hothers _ _ hmeanwhile)).meanwhile (roster_execProcessing op scope)) rfl

/-- However many handlers are registered on whatever bindings, and whichever of them are accepted,
each binding has one subscriber, with the calls of that binding; the policy of a subscriber is the
one of its first handler for good, and whoever asks for another is turned away. -/
theorem Registers.partitioned {log more : Attempts P κ} (h : Registers config e₀ log e)
    (h₀ : e₀.subscribers = []) (hmore : Registers config e more e') :
    Partitioned config log e ∧ Extends e e' :=
  ⟨partitioned_of_roster (h.roster_eq h₀), hmore.extends⟩

end Engine

/-! ## A group with two bindings -/

/-- A group without settings of its own. -/
def plain : GroupConfig Broker.nats.protocol.Route Unit := ⟨.default, none, [], [], []⟩

/-- A handler that takes whatever comes on a subject. -/
def onSubject (subject : String) (retry : Option RetryPolicy) :
    Registration Broker.nats.protocol Unit where
  binding := (⟨subject, none⟩ : Nats.Binding)
  retry := retry
  parser := none
  decoder := .byContentType
  filter := .notProcessed
  maxWorkers := none
  name := subject
  description := none
  payload := none
  targets := []
  processing := []
  telemetry := []
  handler := fun _ => .done (.ok none)

def jobs : Registration Broker.nats.protocol Unit := onSubject "jobs" none

def news : Registration Broker.nats.protocol Unit := onSubject "news" none

/-- Another handler of jobs, that wants them to be tried again. -/
def stubborn : Registration Broker.nats.protocol Unit := onSubject "jobs" (some .always)

/-- The group after these attempts. -/
def attempted (rs : List (Registration Broker.nats.protocol Unit)) :
    Engine Broker.nats.protocol Unit :=
  rs.foldl (fun e r => (Engine.registerAll plain false [r] e).2.2) (Engine.new 0 ())

/-- A group that has processed a job meanwhile. -/
def worked (e : Engine Broker.nats.protocol Unit) : Engine Broker.nats.protocol Unit :=
  let job : Nats.Delivery := ⟨"jobs", none, .empty, "work".toUTF8⟩
  (((jobs.subscriber plain).process plain.publisher job).run Engine.execProcessing
    (e, ⟨.member 0, 0, none⟩)).2.1

/-- A group that has processed a job, after one more attempt. -/
def resumed (r : Registration Broker.nats.protocol Unit) (e : Engine Broker.nats.protocol Unit) :
    Engine Broker.nats.protocol Unit :=
  (Engine.registerAll plain false [r] (worked e)).2.2

theorem partitioned_attempted :
    Engine.Partitioned plain [(jobs, .ok ()), (news, .ok ()),
      (stubborn, .error (.conflictingRetry "jobs" .never .always))]
      (resumed stubborn (attempted [jobs, news])) ∧
    (resumed stubborn (attempted [jobs, news])).Extends
      (resumed jobs (resumed stubborn (attempted [jobs, news]))) := by
  have hjobs : Engine.Registers plain (Engine.new 0 ()) [(jobs, .ok ())] (attempted [jobs]) :=
    .attempt .start false jobs
  have hnews : Engine.Registers plain (Engine.new 0 ()) [(jobs, .ok ()), (news, .ok ())]
      (attempted [jobs, news]) :=
    hjobs.attempt false news
  have halone : ∀ e e' : Engine Broker.nats.protocol Unit, e = e' → e'.roster = e.roster :=
    fun _ _ heq => congrArg Engine.roster heq.symm
  have hworks : ∀ {e₀ log e}, Engine.Registers plain e₀ log e →
      Engine.Registers plain e₀ log (worked e) := fun h =>
    h.performed halone (.of_run (fun _ => rfl) _ _)
  have hrefused : Engine.Registers plain (Engine.new 0 ()) [(jobs, .ok ()), (news, .ok ()),
      (stubborn, .error (.conflictingRetry "jobs" .never .always))]
      (resumed stubborn (attempted [jobs, news])) :=
    (hworks hnews).attempt false stubborn
  exact hrefused.partitioned rfl ((hworks .start).attempt false jobs)

end MessageDispatch
