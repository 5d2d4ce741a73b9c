import MessageDispatch.Proofs.CloseDuringProcessing

/-! Consuming a message with and without the short circuit. Calls whose results are settled by the
message that they are given take the same steps both ways, up to the first success; what comes after
that is left out with the short circuit on. -/
namespace MessageDispatch

/-! ## Results that no answer changes -/

section
variable {S T : Signature} {α : Type}

/-- All runs of a program come to the same, whatever its operations are answered. -/
def Program.Determined (p : Program S α) : Prop :=
  ∀ t a u b, Runs p t a → Runs p u b → a = b

theorem Program.determined_done (a : α) : (Program.done a : Program S α).Determined := by
  intro t b u b' h h'
  obtain ⟨-, rfl⟩ := runs_done_iff.mp h
  exact (runs_done_iff.mp h').2

theorem Program.Determined.expand {p : Program S α} (hp : p.Determined)
    (f : (op : S.Op) → Program T (S.Answer op)) : (p.expand f).Determined := by
  intro t a u b h h'
  obtain ⟨t', -, hruns⟩ := exists_refines_of_runs h
  obtain ⟨u', -, hruns'⟩ := exists_refines_of_runs h'
  exact hp t' a u' b hruns hruns'

end

/-- What the call decodes, whether it accepts and what it comes to is a function of the message
that it is given. -/
structure Call.Functional {ρ κ : Type} (call : Call ρ κ) : Prop where
  decoder : ∀ e, (call.decoder e).Determined
  filter : ∀ e, (call.filter e).Determined
  handler : ∀ middlewares h, call.body = .handler middlewares h →
    ∀ incoming, (h.within middlewares incoming).Determined

namespace Processing

variable {ρ κ : Type} {subscription : String} {shortCircuit : Bool}

theorem determined_runCall {call : Call ρ κ} (hcall : call.Functional) (incoming : Incoming) :
    (runCall (ρ := ρ) call.body incoming).Determined := by
  cases hbody : call.body with
  | handler middlewares h => exact (hcall.handler middlewares h hbody incoming).expand ofHandling
  | replies =>
    intro t a u b h h'
    obtain ⟨answer, t', -, hdone⟩ := runs_call_iff.mp h
    obtain ⟨answer', u', -, hdone'⟩ := runs_call_iff.mp h'
    obtain ⟨-, rfl⟩ := runs_done_iff.mp hdone
    exact (runs_done_iff.mp hdone').2

/-! ## Two runs side by side -/

variable {cs : List (Numbered ρ κ)} {e : Envelope} {consumed : Option (Consumed ρ)}
  {s s' : List (Event (Offering ρ κ))} {out out' : ConsumeResult ρ}

/-- A step that asks something of one of these calls, or of none. -/
def Offering.Op.About (cs : List (Numbered ρ κ)) : Offering.Op ρ κ → Prop
  | .decode c _ | .filter c _ | .record c _ | .handle c _ => c ∈ cs
  | .stop => True

theorem Offering.Op.About.cons {op : Offering.Op ρ κ} (h : op.About cs) (c : Numbered ρ κ) :
    op.About (c :: cs) := by
  cases op with
  | stop => trivial
  | _ => exact List.mem_cons_of_mem _ h

theorem Offered.about (h : Offered subscription shortCircuit cs e consumed s out) :
    ∀ ev ∈ s, ev.op.About cs := by
  induction h with
  | refused rest ih => simpa [asking, Offering.Op.About] using fun ev hev => (ih ev hev).cons _
  | succeeded hshort rest ih =>
    simpa [asking, taking, Offering.Op.About] using fun ev hev => (ih ev hev).cons _
  | _ => simp [asking, taking, Offering.Op.About]

theorem determined_carry (hcs : ∀ c ∈ cs, c.1.Functional) {op : Offering.Op ρ κ}
    (h : op.About cs) : (carry op).Determined := by
  cases op with
  | decode c e => exact ((hcs c h).decoder e).expand ofHandling
  | filter c e => exact ((hcs c h).filter e).expand ofHandling
  | handle c incoming => exact determined_runCall (hcs c h) incoming
  | record | stop => exact fun _ _ _ _ _ _ => rfl

/-- A step that is taken in both runs comes to the same in both. -/
def Agree (s s' : List (Event (Offering ρ κ))) : Prop :=
  ∀ op answer answer', ⟨op, answer⟩ ∈ s → ⟨op, answer'⟩ ∈ s' → answer = answer'

theorem Offered.agree {t t' : List (Event (Processing ρ κ))}
    (h : Offered subscription shortCircuit cs e consumed s out)
    (hcs : ∀ c ∈ cs, c.1.Functional) (hs : Refines carry s t) (hs' : Refines carry s' t') :
    Agree s s' := by
  intro op answer answer' hev hev'
  obtain ⟨u, hu⟩ := Refines.exists_runs hs hev
  obtain ⟨u', hu'⟩ := Refines.exists_runs hs' hev'
  exact determined_carry hcs (h.about _ hev) _ _ _ _ hu hu'

/-- Runs that agree take the same steps, and come to the same result. -/
theorem Offered.unique (h : Offered subscription shortCircuit cs e consumed s out)
    (h' : Offered subscription shortCircuit cs e consumed s' out') (hagree : Agree s s') :
    s = s' ∧ out = out' := by
  -- both follow the same rule: what the first call decodes, accepts and comes to is agreed upon
  induction h generalizing s' out' with
  | finished =>
    cases h'
    exact ⟨rfl, rfl⟩
  | _ => cases h' <;> grind [Agree, asking, taking]

/-! ## The run that is cut short -/

/-- What is left out with the short circuit on: `s` and `out` are its steps and its result, and `s'`
and `out'` are those of the run without it. -/
structure Skips (subscription : String) (e : Envelope) (s s' : List (Event (Offering ρ κ)))
    (out out' : ConsumeResult ρ) : Prop where
  steps : s <+: s'
  /-- The same call is run, if one is. -/
  invocations : invocations s' = invocations s
  recordings : recordings s' = recordings s
  stops : (∃ ev ∈ s', ev.op = .stop) ↔ ∃ ev ∈ s, ev.op = .stop
  result : ∀ r, out'.2 = .ok r → out.2 = .ok r
  error : ∀ err, out.2 = .error err → out'.2 = .error err
  /-- The results differ if a success is followed by a decoder that fails or by another call that
  accepts the message, and for no other reason. -/
  differ : out.2 ≠ out'.2 ↔ hasSucceeded s = true ∧ ∃ later, s' = s ++ later ∧
    ((∃ c d, (c, .error d) ∈ decodings later ∧ out'.2 = .error (.ofDecode d)) ∨
      (acceptances later ≠ [] ∧ out'.2 = .error (.ambiguous subscription e.messageId)))

/-- A run that leaves nothing out. -/
theorem Skips.refl (hdone : hasSucceeded s = false) : Skips subscription e s s out out where
  steps := List.prefix_refl s
  invocations := rfl
  recordings := rfl
  stops := Iff.rfl
  result := fun _ h => h
  error := fun _ h => h
  differ := by simp [hdone]

/-- Calls that are asked before, and do not accept the message, are asked both ways. -/
theorem Skips.asking {c : Numbered ρ κ} {body : Decoded}
    (h : Skips subscription (e.withDecoded body) s s' out out') :
    Skips subscription e (asking c e body false s) (asking c e body false s') out out' where
  steps := by simpa [Processing.asking] using h.steps
  invocations := by simpa [Processing.asking, Processing.invocations] using h.invocations
  recordings := by simpa [Processing.asking, Processing.recordings] using h.recordings
  stops := by simpa [Processing.asking] using h.stops
  result := h.result
  error := h.error
  differ := by
    simpa [Processing.asking, hasSucceeded, Processing.invocations] using h.differ

/-- What follows a success comes to that success, or is why the results differ. -/
theorem Offered.after {earlier : Consumed ρ}
    (h : Offered subscription shortCircuit cs e (some earlier) s out) :
    out.2 = .ok (some earlier) ∨
      (∃ c d, (c, .error d) ∈ decodings s ∧ out.2 = .error (.ofDecode d)) ∨
      (acceptances s ≠ [] ∧ out.2 = .error (.ambiguous subscription e.messageId)) := by
  by_cases hread : ∀ d ∈ decodings s, d.2.isOk = true
  · by_cases hnone : acceptances s = []
    · exact .inl (h.completed_again hread hnone)
    · exact .inr (.inr ⟨hnone, h.again_iff.mpr hnone⟩)
  · obtain ⟨⟨c, read⟩, hd, hfails⟩ : ∃ d ∈ decodings s, d.2.isOk = false := by simpa using hread
    cases read with
    | ok body => cases hfails
    | error d => exact .inr (.inl ⟨c, d, hd, (h.decoder_fails hd).2⟩)

/-- With the short circuit on, a success is the end. -/
theorem Offered.skips_rest {c : Numbered ρ κ} {body : Decoded} {reply : Reply}
    (h : Offered subscription shortCircuit cs (e.withDecoded body).markProcessed
      (some ⟨reply, c.2, c.1.targets⟩) s out) :
    Skips subscription e (taking c e body subscription (.ok reply) [])
      (taking c e body subscription (.ok reply) s)
      ((e.withDecoded body).markProcessed, .ok (some ⟨reply, c.2, c.1.targets⟩)) out where
  steps := by simp [asking, taking]
  invocations := by
    have hnone := h.none_runs
    simpa [asking, taking, invocations] using hnone
  recordings := by
    have hnone : recordings s = [] := by rw [h.recorded, h.none_runs, List.map_nil]
    simpa [asking, taking, recordings] using hnone
  stops := by
    have hgoes : ¬ ∃ ev ∈ s, ev.op = .stop := by
      rw [h.stopped_iff, h.none_runs]
      simp
    simpa [asking, taking] using hgoes
  result := by
    intro r hr
    rcases h.after with hsame | ⟨c, d, -, herr⟩ | ⟨-, herr⟩
    · exact hsame.symm.trans hr
    · cases herr.symm.trans hr
    · cases herr.symm.trans hr
  error := nofun
  differ := by
    have hdone : hasSucceeded (taking c e body subscription (.ok reply) []) = true := rfl
    have hlater : taking c e body subscription (.ok reply) s =
        taking c e body subscription (.ok reply) [] ++ s := rfl
    constructor
    · intro hne
      refine ⟨hdone, s, hlater, ?_⟩
      rcases h.after with hsame | hfails
      · exact absurd hsame.symm hne
      · exact hfails
    · rintro ⟨-, later, -, ⟨c, d, -, herr⟩ | ⟨-, herr⟩⟩ <;> simp [herr]

/-- A run without the short circuit begins with one that has it on. -/
theorem Offered.cut (h : Offered subscription false cs e none s' out') :
    ∃ s out, Offered subscription true cs e none s out ∧
      Skips subscription e s s' out out' := by
  generalize hc : none = consumed at h
  induction h with
  | finished => exact ⟨_, _, .finished, .refl rfl⟩
  | undecodable => exact ⟨_, _, .undecodable, .refl rfl⟩
  | refused rest ih =>
    obtain ⟨s, out, hoffered, hskips⟩ := ih hc
    exact ⟨_, _, .refused hoffered, hskips.asking⟩
  | ambiguous => cases hc
  | last hshort => cases hshort
  | succeeded _ rest ih => exact ⟨_, _, .last rfl, rest.skips_rest⟩
  | stopped => exact ⟨_, _, .stopped, .refl rfl⟩
  | failed hother => exact ⟨_, _, .failed hother, .refl rfl⟩

/-! ## Consuming a message -/

theorem Skips.recordedBodies {t t' : List (Event (Processing ρ κ))}
    (h : Skips subscription e s s' out out') (hs : Refines carry s t) (hs' : Refines carry s' t') :
    recordedBodies t' = recordedBodies t := by
  rw [recordedBodies_of_refines hs, recordedBodies_of_refines hs', h.recordings]

theorem Skips.closes_iff {t t' : List (Event (Processing ρ κ))}
    (h : Skips subscription e s s' out out') (hs : Refines carry s t) (hs' : Refines carry s' t') :
    (∃ ev ∈ t', ev.op = .close) ↔ ∃ ev ∈ t, ev.op = .close := by
  rw [Refines.closes_iff hs, Refines.closes_iff hs', h.stops]

/-- Where what its calls make of a message is a function of that message, a subscriber with the
short circuit on does what it would do without it, up to the first success: it runs the same call,
records the same bodies, is closed in the same cases, and comes to the same result unless a decoder
or a further call would have got in the way. -/
theorem consume_skips {calls : List (Call ρ κ)} {t t' : List (Event (Processing ρ κ))}
    (hcalls : ∀ call ∈ calls, call.Functional)
    (h : Runs (consume subscription true e) (⟨.calls, calls⟩ :: t) out)
    (h' : Runs (consume subscription false e) (⟨.calls, calls⟩ :: t') out') :
    ∃ s s', Refines carry s t ∧ Refines carry s' t' ∧ Skips subscription e s s' out out' ∧
      recordedBodies t' = recordedBodies t ∧
      ((∃ ev ∈ t', ev.op = .close) ↔ ∃ ev ∈ t, ev.op = .close) := by
  cases h with | call h =>
  cases h' with | call h' =>
  obtain ⟨s, hs, hoffered⟩ := offered_of_runs h
  obtain ⟨s', hs', hoffered'⟩ := offered_of_runs h'
  obtain ⟨s₁, out₁, hcut, hskips⟩ := hoffered'.cut
  have hnumbered : ∀ c ∈ calls.zipIdx, c.1.Functional := by
    intro c hc
    exact hcalls c.1 (List.fst_mem_of_mem_zipIdx hc)
  have hagree : Agree s s₁ := by
    intro op answer answer' hev hev'
    exact hoffered.agree hnumbered hs hs' op answer answer' hev (hskips.steps.subset hev')
  obtain ⟨rfl, rfl⟩ := hoffered.unique hcut hagree
  exact ⟨s, s', hs, hs', hskips, hskips.recordedBodies hs hs', hskips.closes_iff hs hs'⟩

theorem functional_accepting : accepting.Functional where
  decoder := fun _ => Program.determined_done _
  filter := fun _ => Program.determined_done _
  handler := by
    intro middlewares h hbody incoming
    cases hbody
    exact Program.determined_done _

/-- A call with an empty body is recorded, and asks for nothing. -/
def oneRecorded : List (Event (Processing Unit Unit)) := [⟨.recordBody 0 .empty, ()⟩]

/-- Of two calls that accept the message, the second makes its routing ambiguous if it is asked. -/
theorem consume_skips_accepting :
    ∃ s s', Refines carry s oneRecorded ∧ Refines carry s' oneRecorded ∧
      Skips "jobs" blank s s'
        ((blank.withDecoded .empty).markProcessed, .ok (some ⟨none, 0, []⟩))
        (((blank.withDecoded .empty).markProcessed.withDecoded .empty),
          .error (.ambiguous "jobs" "m-1")) ∧
      recordedBodies oneRecorded = recordedBodies oneRecorded ∧
      ((∃ ev ∈ oneRecorded, ev.op = .close) ↔ ∃ ev ∈ oneRecorded, ev.op = .close) := by
  have hcalls : ∀ call ∈ [accepting, accepting], call.Functional := by
    simpa using functional_accepting
  exact consume_skips hcalls (.call (.call (.done _))) (.call (.call (.done _)))

end Processing
end MessageDispatch
