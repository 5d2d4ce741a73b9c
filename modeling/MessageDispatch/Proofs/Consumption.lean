import MessageDispatch.Processing
import MessageDispatch.Proofs.Runs
import MessageDispatch.Protocol

/-! One message on its way through the calls of a subscription. What a run asks of the calls comes
as a list of steps: a body is decoded for a call, its filter is asked, the call is recorded and run.
The rules that the steps follow say which call runs, what everyone sees, and what the result is. -/
namespace MessageDispatch
namespace Processing

variable {ρ κ : Type}

/-- A call with its number. -/
abbrev Numbered (ρ κ : Type) : Type := Call ρ κ × Nat

/-! ## What is asked of the calls -/

inductive Offering.Op (ρ κ : Type) where
  | decode (call : Numbered ρ κ) (e : Envelope)
  | filter (call : Numbered ρ κ) (e : Envelope)
  | record (call : Numbered ρ κ) (body : Decoded)
  | handle (call : Numbered ρ κ) (incoming : Incoming)
  /-- A handler asked to close the subscriber. -/
  | stop

abbrev Offering.Answer {ρ κ : Type} : Offering.Op ρ κ → Type
  | .decode .. => Except DecodeError Decoded
  | .filter .. => Bool
  | .record .. => Unit
  | .handle .. => Handled
  | .stop => Unit

abbrev Offering (ρ κ : Type) : Signature := ⟨Offering.Op ρ κ, Offering.Answer⟩

/-- Each step is carried out by what the call was registered with. -/
def carry : (op : Offering.Op ρ κ) → Program (Processing ρ κ) (Offering.Answer op)
  | .decode call e => Program.expand ofHandling (call.1.decoder e)
  | .filter call e => Program.expand ofHandling (call.1.filter e)
  | .record call body => perform (.recordBody call.2 body)
  | .handle call incoming => runCall call.1.body incoming
  | .stop => do
    log .info "A handler asked to stop consuming, closing the subscriber"
    perform .close

section
variable (c : Numbered ρ κ) (e : Envelope) (body : Decoded)

/-- The steps for a call that is asked, before others. -/
def asking (accepts : Bool) (s : List (Event (Offering ρ κ))) : List (Event (Offering ρ κ)) :=
  ⟨.decode c e, .ok body⟩ :: ⟨.filter c (e.withDecoded body), accepts⟩ :: s

/-- The steps for a call that accepts the message and is run for it, before others. -/
def taking (subscription : String) (handled : Handled) (s : List (Event (Offering ρ κ))) :
    List (Event (Offering ρ κ)) :=
  asking c e body true (⟨.record c body, ()⟩ ::
    ⟨.handle c ⟨e.withDecoded body, subscription⟩, handled⟩ :: s)

end

section
variable (subscription : String) (shortCircuit : Bool)

/-- How the steps for the remaining calls come about, and what the result is. -/
inductive Offered : List (Numbered ρ κ) → Envelope → Option (Consumed ρ) →
    List (Event (Offering ρ κ)) → ConsumeResult ρ → Prop where
  | finished {e : Envelope} {consumed : Option (Consumed ρ)} :
      Offered [] e consumed [] (e, .ok consumed)
  | undecodable {c : Numbered ρ κ} {cs : List (Numbered ρ κ)} {e : Envelope}
      {consumed : Option (Consumed ρ)} {d : DecodeError} :
      Offered (c :: cs) e consumed [⟨.decode c e, .error d⟩] (e, .error (.ofDecode d))
  | refused {c : Numbered ρ κ} {cs : List (Numbered ρ κ)} {e : Envelope} {body : Decoded}
      {consumed : Option (Consumed ρ)} {s : List (Event (Offering ρ κ))} {out : ConsumeResult ρ}
      (rest : Offered cs (e.withDecoded body) consumed s out) :
      Offered (c :: cs) e consumed (asking c e body false s) out
  | ambiguous {c : Numbered ρ κ} {cs : List (Numbered ρ κ)} {e : Envelope} {body : Decoded}
      {earlier : Consumed ρ} :
      Offered (c :: cs) e (some earlier) (asking c e body true [])
        (e.withDecoded body, .error (.ambiguous subscription e.messageId))
  | last {c : Numbered ρ κ} {cs : List (Numbered ρ κ)} {e : Envelope} {body : Decoded}
      {reply : Reply} (h : shortCircuit = true) :
      Offered (c :: cs) e none (taking c e body subscription (.ok reply) [])
        ((e.withDecoded body).markProcessed, .ok (some ⟨reply, c.2, c.1.targets⟩))
  | succeeded {c : Numbered ρ κ} {cs : List (Numbered ρ κ)} {e : Envelope} {body : Decoded}
      {reply : Reply} {s : List (Event (Offering ρ κ))} {out : ConsumeResult ρ}
      (h : shortCircuit = false)
      (rest : Offered cs (e.withDecoded body).markProcessed (some ⟨reply, c.2, c.1.targets⟩) s
        out) :
      Offered (c :: cs) e none (taking c e body subscription (.ok reply) s) out
  | stopped {c : Numbered ρ κ} {cs : List (Numbered ρ κ)} {e : Envelope} {body : Decoded} :
      Offered (c :: cs) e none
        (taking c e body subscription (.error (.interrupt .stopConsuming)) [⟨.stop, ()⟩])
        (e.withDecoded body, .ok none)
  | failed {c : Numbered ρ κ} {cs : List (Numbered ρ κ)} {e : Envelope} {body : Decoded}
      {err : HandlerError} (h : err ≠ .interrupt .stopConsuming) :
      Offered (c :: cs) e none (taking c e body subscription (.error err) [])
        (e.withDecoded body, .error err)

end

variable {subscription : String} {shortCircuit : Bool}

/-- A run that offers a message to calls follows the rules. -/
theorem offered_of_runs {calls : List (Call ρ κ)} {i : Nat} {e : Envelope}
    {consumed : Option (Consumed ρ)} {t : List (Event (Processing ρ κ))} {out : ConsumeResult ρ}
    (h : Runs (offer subscription shortCircuit calls i e consumed) t out) :
    ∃ s, Refines carry s t ∧
      Offered subscription shortCircuit (calls.zipIdx i) e consumed s out := by
  induction calls generalizing i e consumed t with
  | nil =>
    obtain ⟨rfl, rfl⟩ := runs_done_iff.mp h
    exact ⟨[], .nil, .finished⟩
  | cons call calls ih =>
    rw [List.zipIdx_cons]
    simp only [offer, Program.bind_eq, runs_bind_iff] at h
    obtain ⟨t₁, t₂, read, rfl, hdecode, h⟩ := h
    cases read with
    | error d =>
      obtain ⟨rfl, rfl⟩ := runs_done_iff.mp h
      exact ⟨[⟨.decode (call, i) e, .error d⟩], .cons hdecode .nil, .undecodable⟩
    | ok body =>
      obtain ⟨t₂, t₃, accepts, rfl, hfilter, h⟩ := runs_bind_iff.mp h
      cases accepts with
      | false =>
        obtain ⟨s, hs, hoffered⟩ := ih h
        exact ⟨asking (call, i) e body false s, .cons hdecode (.cons hfilter hs),
          .refused hoffered⟩
      | true =>
        cases consumed with
        | some earlier =>
          obtain ⟨rfl, rfl⟩ := runs_done_iff.mp h
          exact ⟨asking (call, i) e body true [], .cons hdecode (.cons hfilter .nil), .ambiguous⟩
        | none =>
          obtain ⟨t₃, t₄, ⟨⟩, rfl, hrecord, h⟩ := runs_bind_iff.mp h
          obtain ⟨t₄, t₅, handled, rfl, hhandle, h⟩ := runs_bind_iff.mp h
          -- the steps of a call that is run, before whatever comes after them
          have hrefines {s : List (Event (Offering ρ κ))} (hs : Refines carry s t₅) :
              Refines carry (taking (call, i) e body subscription handled s)
                (t₁ ++ (t₂ ++ (t₃ ++ (t₄ ++ t₅)))) :=
            .cons hdecode (.cons hfilter (.cons hrecord (.cons hhandle hs)))
          cases handled with
          | ok reply =>
            cases hshort : shortCircuit with
            | true =>
              simp only [hshort, if_true] at h
              obtain ⟨rfl, rfl⟩ := runs_done_iff.mp h
              exact ⟨_, hrefines .nil, .last rfl⟩
            | false =>
              rw [hshort] at h ih
              obtain ⟨s, hs, hoffered⟩ := ih h
              exact ⟨_, hrefines hs, .succeeded rfl hoffered⟩
          | error err =>
            by_cases hstop : err = .interrupt .stopConsuming
            · subst hstop
              obtain ⟨u₁, u₂, ⟨⟩, rfl, hlog, h⟩ := runs_bind_iff.mp h
              obtain ⟨u₂, u₃, ⟨⟩, rfl, hclose, h⟩ := runs_bind_iff.mp h
              obtain ⟨rfl, rfl⟩ := runs_done_iff.mp h
              have hstop : Runs (carry .stop : Program (Processing ρ κ) Unit) (u₁ ++ u₂) () :=
                runs_bind_iff.mpr ⟨u₁, u₂, (), rfl, hlog, hclose⟩
              have hs : Refines (S := Offering ρ κ) carry [⟨.stop, ()⟩] (u₁ ++ (u₂ ++ [])) := by
                rw [← List.append_assoc]
                exact .cons hstop .nil
              exact ⟨_, hrefines hs, .stopped⟩
            · have hdone : out = (e.withDecoded body, .error err) ∧ t₅ = [] := by
                rcases err with signal | ⟨type, cause⟩
                · cases signal with
                  | stopConsuming => exact absurd rfl hstop
                  | _ => exact (runs_done_iff.mp h).symm.imp Eq.symm id
                · exact (runs_done_iff.mp h).symm.imp Eq.symm id
              obtain ⟨rfl, rfl⟩ := hdone
              exact ⟨_, hrefines .nil, .failed hstop⟩

/-! ## What the steps show -/

/-- The calls that bodies were decoded for, each with what its decoder said. -/
def decodings (s : List (Event (Offering ρ κ))) :
    List (Numbered ρ κ × Except DecodeError Decoded) :=
  s.filterMap fun
    | ⟨.decode c _, read⟩ => some (c, read)
    | _ => none

/-- The calls whose filters were asked, each with the envelope that it saw and its answer. -/
def askings (s : List (Event (Offering ρ κ))) : List (Numbered ρ κ × Envelope × Bool) :=
  s.filterMap fun
    | ⟨.filter c e, accepts⟩ => some (c, e, accepts)
    | _ => none

/-- The calls that were run, each with the message that it got and what it came to. -/
def invocations (s : List (Event (Offering ρ κ))) : List (Numbered ρ κ × Incoming × Handled) :=
  s.filterMap fun
    | ⟨.handle c incoming, handled⟩ => some (c, incoming, handled)
    | _ => none

/-- The calls that were recorded to run, each with the body. -/
def recordings (s : List (Event (Offering ρ κ))) : List (Numbered ρ κ × Decoded) :=
  s.filterMap fun
    | ⟨.record c body, _⟩ => some (c, body)
    | _ => none

/-- The askings that were answered with yes. -/
def acceptances (s : List (Event (Offering ρ κ))) : List (Numbered ρ κ × Envelope × Bool) :=
  (askings s).filter (·.2.2)

/-- Has a call been run with success? -/
def hasSucceeded (s : List (Event (Offering ρ κ))) : Bool :=
  (invocations s).any (·.2.2.isOk)

variable {cs : List (Numbered ρ κ)} {e : Envelope} {consumed : Option (Consumed ρ)}
  {s : List (Event (Offering ρ κ))} {out : ConsumeResult ρ}

theorem Offered.in_order (h : Offered subscription shortCircuit cs e consumed s out) :
    (decodings s).map (·.1) <+: cs := by
  induction h with
  | finished => exact List.nil_prefix
  | refused rest ih => simpa [decodings, asking] using ih
  | succeeded hshort rest ih => simpa [decodings, asking, taking] using ih
  | _ => simp [decodings, asking, taking]

theorem Offered.asked (h : Offered subscription shortCircuit cs e consumed s out) :
    (askings s).map (fun a => (a.1, Except.ok a.2.1.decodedBody)) =
      (decodings s).filter (·.2.isOk) := by
  induction h with
  | refused rest ih => exact congrArg (List.cons _) ih
  | succeeded hshort rest ih => exact congrArg (List.cons _) ih
  | _ => rfl

/-- Once a call has been run with success, none is run any more. -/
theorem Offered.none_runs {earlier : Consumed ρ}
    (h : Offered subscription shortCircuit cs e (some earlier) s out) : invocations s = [] := by
  generalize hc : some earlier = consumed at h
  induction h with
  | refused rest ih => simpa [invocations, asking] using ih hc
  | last | succeeded | stopped | failed => cases hc
  | _ => simp [invocations, asking]

theorem Offered.first_runs (h : Offered subscription shortCircuit cs e none s out) :
    (invocations s).map (fun v => (v.1, v.2.1)) =
      ((acceptances s).take 1).map fun a => (a.1, ⟨a.2.1, subscription⟩) := by
  generalize hc : none = consumed at h
  induction h with
  | refused rest ih => simpa [invocations, acceptances, askings, asking] using ih hc
  | ambiguous => cases hc
  | succeeded hshort rest ih =>
    have hnone := rest.none_runs
    simp only [invocations] at hnone
    simp [invocations, acceptances, askings, asking, taking, hnone]
  | _ => simp [invocations, acceptances, askings, asking, taking]

theorem Offered.recorded (h : Offered subscription shortCircuit cs e consumed s out) :
    recordings s = (invocations s).map fun v => (v.1, v.2.1.decoded) := by
  induction h with
  | refused rest ih => simpa [recordings, invocations, asking] using ih
  | succeeded hshort rest ih =>
    simpa [recordings, invocations, asking, taking, Incoming.decoded] using ih
  | _ => simp [recordings, invocations, asking, taking, Incoming.decoded]

/-- Nothing is asked for after a decoder that fails. -/
theorem Offered.decoder_fails (h : Offered subscription shortCircuit cs e consumed s out)
    {c : Numbered ρ κ} {d : DecodeError} (hd : (c, .error d) ∈ decodings s) :
    (∃ s₁ env, s = s₁ ++ [⟨.decode c env, .error d⟩]) ∧ out.2 = .error (.ofDecode d) := by
  induction h with
  | @undecodable c' cs e consumed d' =>
    have heq : c = c' ∧ d = d' := by simpa [decodings] using hd
    obtain ⟨rfl, rfl⟩ := heq
    exact ⟨⟨[], e, rfl⟩, rfl⟩
  | refused rest ih =>
    obtain ⟨⟨s₁, env, rfl⟩, hout⟩ := ih (by simpa [decodings, asking] using hd)
    exact ⟨⟨asking _ _ _ _ s₁, env, rfl⟩, hout⟩
  | succeeded hshort rest ih =>
    obtain ⟨⟨s₁, env, rfl⟩, hout⟩ := ih (by simpa [decodings, asking, taking] using hd)
    exact ⟨⟨taking _ _ _ _ _ s₁, env, rfl⟩, hout⟩
  | _ => simp [decodings, asking, taking] at hd

/-- Filters are shown whether the message is processed, which is so from the first success on. -/
def Sees : Bool → List (Event (Offering ρ κ)) → Prop
  | _, [] => True
  | processed, ⟨.filter _ env, _⟩ :: s => env.processed = processed ∧ Sees processed s
  | processed, ⟨.handle _ _, handled⟩ :: s => Sees (processed || handled.isOk) s
  | processed, _ :: s => Sees processed s

theorem Offered.sees (h : Offered subscription shortCircuit cs e consumed s out) :
    Sees e.processed s := by
  induction h with
  | refused rest ih => exact ⟨rfl, ih⟩
  | @succeeded c cs e body reply s out hshort rest ih =>
    refine ⟨rfl, ?_⟩
    have hsuccess : (e.processed || Except.isOk (.ok reply : Handled)) = true := Bool.or_true _
    show Sees _ s
    rw [hsuccess]
    exact ih
  | _ => simp [Sees, asking, taking]

theorem Sees.split {processed : Bool} {s₁ s₂ : List (Event (Offering ρ κ))} {c : Numbered ρ κ}
    {env : Envelope} {accepts : Bool}
    (h : Sees processed (s₁ ++ ⟨.filter c env, accepts⟩ :: s₂)) :
    env.processed = (processed || hasSucceeded s₁) := by
  induction s₁ generalizing processed with
  | nil => simpa [hasSucceeded, invocations] using h.1
  | cons ev s₁ ih =>
    obtain ⟨op, answer⟩ := ev
    cases op with
    | filter c' env' => exact ih h.2
    | handle c' incoming =>
      rw [ih h, Bool.or_assoc]
      rfl
    | _ => exact ih h

/-! ## What the result is -/

theorem Offered.again_iff {earlier : Consumed ρ}
    (h : Offered subscription shortCircuit cs e (some earlier) s out) :
    out.2 = .error (.ambiguous subscription e.messageId) ↔ acceptances s ≠ [] := by
  generalize hc : some earlier = consumed at h
  induction h with
  | finished => simp [acceptances, askings]
  | undecodable => simp [acceptances, askings, HandlerError.ofDecode, HandlerError.ambiguous]
  | refused rest ih => simpa [acceptances, askings, asking] using ih hc
  | ambiguous => simp [acceptances, askings, asking]
  | last | succeeded | stopped | failed => cases hc

/-- Without a short circuit, routing is ambiguous exactly if a call succeeded and another one
accepts the message after that. -/
theorem Offered.ambiguous_iff (hshort : shortCircuit = false)
    (h : Offered subscription shortCircuit cs e none s out) :
    (out.2 = .error (.ambiguous subscription e.messageId) ∧
        ∀ v ∈ invocations s, v.2.2 ≠ .error (.ambiguous subscription e.messageId)) ↔
      hasSucceeded s = true ∧ 2 ≤ (acceptances s).length := by
  generalize hc : none = consumed at h
  induction h with
  | finished => simp [hasSucceeded, invocations]
  | undecodable => simp [hasSucceeded, invocations, HandlerError.ofDecode, HandlerError.ambiguous]
  | refused rest ih =>
    simpa [acceptances, askings, hasSucceeded, invocations, asking] using ih hc
  | ambiguous => cases hc
  | last h => rw [hshort] at h; cases h
  | @succeeded c cs e body reply s out _ rest ih =>
    have hagain : out.2 = .error (.ambiguous subscription e.messageId) ↔ acceptances s ≠ [] :=
      rest.again_iff
    -- the call is the only one that is run, so an ambiguous result comes from the rest
    have hinvocations : invocations (taking c e body subscription (.ok reply) s) =
        [(c, ⟨e.withDecoded body, subscription⟩, .ok reply)] :=
      congrArg (List.cons _) rest.none_runs
    have hacceptances : (acceptances (taking c e body subscription (.ok reply) s)).length =
        (acceptances s).length + 1 := rfl
    rw [hacceptances, hasSucceeded, hinvocations, hagain, ← List.length_pos_iff]
    simp [Except.isOk, Except.toBool]
    omega
  | stopped => simp [hasSucceeded, invocations, asking, taking, Except.isOk, Except.toBool]
  | failed hstop => simp [hasSucceeded, invocations, asking, taking, Except.isOk, Except.toBool]

/-- What a call fails with is the result, unless it asked to close the subscriber. -/
theorem Offered.failure (h : Offered subscription shortCircuit cs e consumed s out)
    {c : Numbered ρ κ} {incoming : Incoming} {err : HandlerError}
    (hv : (c, incoming, .error err) ∈ invocations s) :
    out.2 = if err = .interrupt .stopConsuming then .ok none else .error err := by
  induction h with
  | refused rest ih => exact ih (by simpa [invocations, asking] using hv)
  | succeeded hshort rest ih => exact ih (by simpa [invocations, asking, taking] using hv)
  | stopped =>
    cases List.mem_singleton.mp hv
    rfl
  | failed hstop =>
    cases List.mem_singleton.mp hv
    rw [if_neg hstop]
  | _ => simp [invocations, asking, taking] at hv

/-- A result that interrupts processing is what a call asked for. -/
theorem Offered.interrupted (h : Offered subscription shortCircuit cs e consumed s out)
    {signal : Interrupt} (hout : out.2 = .error (.interrupt signal)) :
    ∃ c incoming, (c, incoming, .error (.interrupt signal)) ∈ invocations s := by
  induction h with
  | refused rest ih => exact ih hout
  | succeeded hshort rest ih =>
    obtain ⟨c, incoming, hv⟩ := ih hout
    exact ⟨c, incoming, List.mem_cons_of_mem _ hv⟩
  | failed =>
    obtain rfl := Except.error.inj hout
    exact ⟨_, _, List.mem_singleton.mpr rfl⟩
  | _ => cases hout

theorem Offered.replied (h : Offered subscription shortCircuit cs e consumed s out)
    {result : Consumed ρ} (hout : out.2 = .ok (some result)) :
    consumed = some result ∨ ∃ v ∈ invocations s, v.2.2 = .ok result.reply ∧
      result.call = v.1.2 ∧ result.targets = v.1.1.targets := by
  induction h with
  | finished => exact .inl (Except.ok.inj hout)
  | refused rest ih => exact ih hout
  | last =>
    obtain rfl := Option.some.inj (Except.ok.inj hout)
    exact .inr ⟨_, List.mem_singleton.mpr rfl, rfl, rfl, rfl⟩
  | succeeded hshort rest ih =>
    right
    rcases ih hout with h | ⟨v, hv, h⟩
    · obtain rfl := Option.some.inj h
      exact ⟨_, List.mem_cons_self, rfl, rfl, rfl⟩
    · exact ⟨v, List.mem_cons_of_mem _ hv, h⟩
  | _ => cases hout

theorem Offered.goes_on_again {earlier : Consumed ρ}
    (h : Offered subscription shortCircuit cs e (some earlier) s out) :
    (decodings s).map (·.1) = cs ∨ (∃ d ∈ decodings s, d.2.isOk = false) ∨
      acceptances s ≠ [] := by
  generalize hc : some earlier = consumed at h
  induction h with
  | finished => exact .inl rfl
  | undecodable => exact .inr (.inl ⟨_, List.mem_singleton.mpr rfl, rfl⟩)
  | refused rest ih =>
    rcases ih hc with h | ⟨d, hd, h⟩ | h
    · exact .inl (congrArg (List.cons _) h)
    · exact .inr (.inl ⟨d, List.mem_cons_of_mem _ hd, h⟩)
    · exact .inr (.inr h)
  | ambiguous => exact .inr (.inr (by simp [acceptances, askings, asking]))
  | last | succeeded | stopped | failed => cases hc

/-- The run goes on to the last call unless a decoder fails, a second call accepts the message, or
the call that was run failed or was meant to be the last. -/
theorem Offered.goes_on (h : Offered subscription shortCircuit cs e none s out) :
    (decodings s).map (·.1) = cs ∨ (∃ d ∈ decodings s, d.2.isOk = false) ∨
      2 ≤ (acceptances s).length ∨
      ∃ v ∈ invocations s, v.2.2.isOk = false ∨ shortCircuit = true := by
  generalize hc : none = consumed at h
  induction h with
  | finished => exact .inl rfl
  | undecodable => exact .inr (.inl ⟨_, List.mem_singleton.mpr rfl, rfl⟩)
  | refused rest ih =>
    rcases ih hc with h | ⟨d, hd, h⟩ | h | h
    · exact .inl (congrArg (List.cons _) h)
    · exact .inr (.inl ⟨d, List.mem_cons_of_mem _ hd, h⟩)
    · exact .inr (.inr (.inl h))
    · exact .inr (.inr (.inr h))
  | ambiguous => cases hc
  | last h => exact .inr (.inr (.inr ⟨_, List.mem_singleton.mpr rfl, .inr h⟩))
  | succeeded hshort rest ih =>
    rcases rest.goes_on_again with h | ⟨d, hd, h⟩ | h
    · exact .inl (congrArg (List.cons _) h)
    · exact .inr (.inl ⟨d, List.mem_cons_of_mem _ hd, h⟩)
    · exact .inr (.inr (.inl (Nat.succ_le_succ (List.length_pos_iff.mpr h))))
  | stopped | failed => exact .inr (.inr (.inr ⟨_, List.mem_cons_self, .inl rfl⟩))

theorem Offered.completed_again {earlier : Consumed ρ}
    (h : Offered subscription shortCircuit cs e (some earlier) s out)
    (hread : ∀ d ∈ decodings s, d.2.isOk = true) (hnone : acceptances s = []) :
    out.2 = .ok (some earlier) := by
  generalize hc : some earlier = consumed at h
  induction h with
  | finished => rw [← hc]
  | undecodable => cases hread _ (List.mem_singleton.mpr rfl)
  | refused rest ih => exact ih (List.forall_mem_cons.mp hread).2 hnone hc
  | ambiguous => cases hnone
  | last | succeeded | stopped | failed => cases hc

/-- Nothing is wrong with a message that can be read, was accepted once at most, and that no call
failed on. -/
theorem Offered.completed (h : Offered subscription shortCircuit cs e none s out)
    (hread : ∀ d ∈ decodings s, d.2.isOk = true) (hran : ∀ v ∈ invocations s, v.2.2.isOk = true)
    (hone : (acceptances s).length ≤ 1) : ∃ consumed, out.2 = .ok consumed := by
  generalize hc : none = consumed at h
  induction h with
  | finished => exact ⟨_, rfl⟩
  | undecodable => cases hread _ (List.mem_singleton.mpr rfl)
  | refused rest ih => exact ih (List.forall_mem_cons.mp hread).2 hran hone hc
  | ambiguous => cases hc
  | last => exact ⟨_, rfl⟩
  | succeeded hshort rest ih =>
    have hnone := List.length_eq_zero_iff.mp (Nat.le_zero.mp (Nat.le_of_succ_le_succ hone))
    exact ⟨_, rest.completed_again (List.forall_mem_cons.mp hread).2 hnone⟩
  | stopped => exact ⟨_, rfl⟩
  | failed => cases hran _ (List.mem_singleton.mpr rfl)

/-- The message keeps its id. -/
theorem Offered.messageId (h : Offered subscription shortCircuit cs e consumed s out) :
    out.1.messageId = e.messageId := by
  induction h with
  | refused rest ih => exact ih
  | succeeded hshort rest ih => exact ih
  | _ => rfl

/-- Whoever is shown a message sees of it what decoding and processing do not change. -/
theorem Offered.keeps {β : Type} {f : Envelope → β}
    (hdecoded : ∀ e body, f (e.withDecoded body) = f e)
    (hprocessed : ∀ e, f e.markProcessed = f e)
    (h : Offered subscription shortCircuit cs e consumed s out) :
    f out.1 = f e ∧ ∀ v ∈ invocations s, f v.2.1.envelope = f e := by
  induction h with
  | refused rest ih => simpa [invocations, asking, hdecoded] using ih
  | succeeded hshort rest ih => simpa [invocations, asking, taking, hdecoded, hprocessed] using ih
  | _ => simp [invocations, asking, taking, hdecoded, hprocessed]

/-! ## What calls ask of the engine -/

/-- The operations that calls have at hand, of which there is none to record a call. -/
def Op.isOfCalls : Processing.Op ρ κ → Bool
  | .publishing (.ambient _) | .settle _ | .settlement | .resolve .. => true
  | _ => false

theorem within_ofHandling {α : Type} (p : Program (Handling κ) α) :
    (p.expand (ofHandling (ρ := ρ))).Within fun op => Op.isOfCalls op = true := by
  refine Program.within_expand ?_ p
  intro op
  cases op <;> exact ⟨rfl, fun _ => trivial⟩

theorem within_runCall (body : CallBody κ) (incoming : Incoming) :
    (runCall (ρ := ρ) body incoming).Within fun op => Op.isOfCalls op = true := by
  cases body with
  | handler middlewares h => exact within_ofHandling _
  | replies => exact ⟨rfl, fun _ => trivial⟩

/-- The bodies that a run records for calls, by number. -/
def recordedBodies (t : List (Event (Processing ρ κ))) : List (Nat × Decoded) :=
  t.filterMap fun
    | ⟨.recordBody call body, _⟩ => some (call, body)
    | _ => none

theorem recordedBodies_eq_nil {t : List (Event (Processing ρ κ))}
    (h : ∀ ev ∈ t, Op.isOfCalls ev.op = true) : recordedBodies t = [] := by
  refine List.filterMap_eq_nil_iff.mpr ?_
  intro ev hev
  obtain ⟨op, answer⟩ := ev
  have hop := h _ hev
  cases op with
  | recordBody call body => cases hop
  | _ => rfl

theorem recordedBodies_of_refines {t : List (Event (Processing ρ κ))} (h : Refines carry s t) :
    recordedBodies t = (recordings s).map fun r => (r.1.2, r.2) := by
  induction h with
  | nil => rfl
  | @cons op answer s t u hop rest ih =>
    have happend : recordedBodies (t ++ u) = recordedBodies t ++ recordedBodies u :=
      List.filterMap_append
    rw [happend, ih]
    cases op with
    | record c body =>
      obtain ⟨_, _, rfl, hdone⟩ := runs_call_iff.mp hop
      obtain ⟨rfl, -⟩ := runs_done_iff.mp hdone
      rfl
    | decode c env =>
      rw [recordedBodies_eq_nil (hop.allowed (within_ofHandling _))]
      rfl
    | filter c env =>
      rw [recordedBodies_eq_nil (hop.allowed (within_ofHandling _))]
      rfl
    | handle c incoming =>
      rw [recordedBodies_eq_nil (hop.allowed (within_runCall _ _))]
      rfl
    | stop =>
      obtain ⟨t₁, t₂, ⟨⟩, rfl, hlog, hclose⟩ := runs_bind_iff.mp hop
      obtain ⟨_, _, rfl, hdone⟩ := runs_call_iff.mp hlog
      obtain ⟨rfl, -⟩ := runs_done_iff.mp hdone
      obtain ⟨_, _, rfl, hdone⟩ := runs_call_iff.mp hclose
      obtain ⟨rfl, -⟩ := runs_done_iff.mp hdone
      rfl

/-! ## Consuming a message -/

/-- How a message is routed: the steps that a run asks of the calls, and its result. -/
structure Routing (subscription : String) (shortCircuit : Bool) (calls : List (Call ρ κ))
    (e : Envelope) (s : List (Event (Offering ρ κ))) (out : ConsumeResult ρ) : Prop where
  /-- Bodies are decoded for one call after the other, in the order of registration. -/
  in_order : (decodings s).map (·.1) <+: calls.zipIdx
  /-- A call is asked as soon as its own decoder has succeeded, and sees that body. -/
  asked : (askings s).map (fun a => (a.1, Except.ok a.2.1.decodedBody)) =
    (decodings s).filter (·.2.isOk)
  /-- A decoder that fails is the last to be asked anything, and its error is the result. -/
  decoder_fails : ∀ c d, (c, .error d) ∈ decodings s →
    (∃ s₁ env, s = s₁ ++ [⟨.decode c env, .error d⟩]) ∧ out.2 = .error (.ofDecode d)
  /-- The first call that accepts the message is run, and no other. -/
  first_runs : (invocations s).map (fun v => (v.1, v.2.1)) =
    ((acceptances s).take 1).map fun a => (a.1, ⟨a.2.1, subscription⟩)
  recorded : recordings s = (invocations s).map fun v => (v.1, v.2.1.decoded)
  /-- A filter sees that the message is processed exactly if a call has succeeded before. -/
  processed : ∀ s₁ s₂ c env accepts, s = s₁ ++ ⟨.filter c env, accepts⟩ :: s₂ →
    env.processed = hasSucceeded s₁
  ambiguous : shortCircuit = false →
    ((out.2 = .error (.ambiguous subscription e.messageId) ∧
        ∀ v ∈ invocations s, v.2.2 ≠ .error (.ambiguous subscription e.messageId)) ↔
      hasSucceeded s = true ∧ 2 ≤ (acceptances s).length)
  failure : ∀ c incoming err, (c, incoming, .error err) ∈ invocations s →
    out.2 = if err = .interrupt .stopConsuming then .ok none else .error err
  replied : ∀ result, out.2 = .ok (some result) → ∃ v ∈ invocations s,
    v.2.2 = .ok result.reply ∧ result.call = v.1.2 ∧ result.targets = v.1.1.targets
  /-- What keeps the run from going on to the last call. -/
  goes_on : (decodings s).map (·.1) = calls.zipIdx ∨ (∃ d ∈ decodings s, d.2.isOk = false) ∨
    2 ≤ (acceptances s).length ∨ ∃ v ∈ invocations s, v.2.2.isOk = false ∨ shortCircuit = true

theorem Offered.routing {calls : List (Call ρ κ)} (he : e.processed = false)
    (h : Offered subscription shortCircuit calls.zipIdx e none s out) :
    Routing subscription shortCircuit calls e s out where
  in_order := h.in_order
  asked := h.asked
  decoder_fails := fun _ _ hd => h.decoder_fails hd
  first_runs := h.first_runs
  recorded := h.recorded
  processed := by
    intro s₁ s₂ c env accepts hs
    have hsees := h.sees
    rw [hs] at hsees
    simpa [he] using hsees.split
  ambiguous := h.ambiguous_iff
  failure := fun _ _ _ hv => h.failure hv
  replied := by
    intro result hout
    rcases h.replied hout with hnone | hv
    · cases hnone
    · exact hv
  goes_on := h.goes_on

/-- However the programs of its calls are carried out, and whatever else happens meanwhile, a fresh
message is routed to the first call that accepts it, and to no other. -/
theorem consume_routing {t : List (Event (Processing ρ κ))} (he : e.processed = false)
    (h : Runs (consume subscription shortCircuit e) t out) :
    ∃ calls t' s, t = ⟨.calls, calls⟩ :: t' ∧ Refines carry s t' ∧
      recordedBodies t = (invocations s).map (fun v => (v.1.2, v.2.1.decoded)) ∧
        Routing subscription shortCircuit calls e s out := by
  obtain ⟨calls, t', rfl, hoffer⟩ := runs_call_iff.mp h
  obtain ⟨s, hs, hoffered⟩ := offered_of_runs hoffer
  have hrecorded : recordedBodies t' = (invocations s).map fun v => (v.1.2, v.2.1.decoded) := by
    rw [recordedBodies_of_refines hs, hoffered.recorded, List.map_map]
    rfl
  exact ⟨calls, t', s, rfl, hs, hrecorded, hoffered.routing he⟩

/-- A call that accepts every message and does nothing with it. -/
def accepting : Call Unit Unit where
  body := .handler [] fun _ => .done (.ok none)
  filter := fun _ => .done true
  decoder := .byContentType
  targets := []
  info := ⟨"accepting", none, none⟩

/-- A message without anything in it, as it has just come in. -/
def blank : Envelope :=
  Broker.nats.protocol.parse "m-1" (⟨"jobs", none, .empty, ⟨#[]⟩⟩ : Nats.Delivery)

theorem consume_routing_accepting :
    ∃ calls t' s, [⟨.calls, [accepting, accepting]⟩, ⟨.recordBody 0 .empty, ()⟩] =
        (⟨.calls, calls⟩ :: t' : List (Event (Processing Unit Unit))) ∧ Refines carry s t' ∧
      recordedBodies [⟨.calls, [accepting, accepting]⟩, ⟨.recordBody 0 .empty, ()⟩] =
        (invocations s).map (fun v => (v.1.2, v.2.1.decoded)) ∧
      Routing "jobs" false calls blank s
        (((blank.withDecoded .empty).markProcessed.withDecoded .empty),
          .error (.ambiguous "jobs" "m-1")) :=
  consume_routing (Broker.processed_parse ..) (.call (.call (.done _)))

end Processing
end MessageDispatch
