import MessageDispatch.Envelope

/-! How an envelope comes by its two ids. It is put together by setting one thing after another, in
any order. The message id is the one that was set last. A correlation id that was set stays, unless
the message had the same id and was given another one afterwards: from then on it is the message
id, as it is when none was set at all. -/
namespace MessageDispatch.Envelope

/-- Something about an envelope that can be set. -/
inductive Setting where
  | messageId (id : String)
  | correlationId (id : String)
  | replyTo (destination : String)
  | contentType (type : Option String)
  | headers (all : Headers)

namespace Setting

def apply (e : Envelope) : Setting → Envelope
  | .messageId id => e.withMessageId id
  | .correlationId id => e.withCorrelationId id
  | .replyTo destination => e.withReplyTo destination
  | .contentType type => e.withContentType type
  | .headers all => e.withHeaders all

def messageId? : Setting → Option String
  | .messageId id => some id
  | _ => none

def correlationId? : Setting → Option String
  | .correlationId id => some id
  | _ => none

end Setting

/-- Set one thing after another. -/
def setAll (e : Envelope) (settings : List Setting) : Envelope :=
  settings.foldl Setting.apply e

/-- The message ids that are set. -/
def messageIds (settings : List Setting) : List String := settings.filterMap Setting.messageId?

/-- The correlation ids that are set. -/
def correlationIds (settings : List Setting) : List String :=
  settings.filterMap Setting.correlationId?

variable {settings before after : List Setting} {fresh c : String} {body : ByteArray}

theorem setAll_append (e : Envelope) (before after : List Setting) :
    e.setAll (before ++ after) = (e.setAll before).setAll after :=
  List.foldl_append

theorem messageId_setAll (e : Envelope) (settings : List Setting) :
    (e.setAll settings).messageId = (messageIds settings).getLastD e.messageId := by
  induction settings generalizing e with
  | nil => rfl
  | cons setting rest ih =>
    refine (ih _).trans ?_
    cases setting with
    | messageId id => exact (List.getLastD_cons ..).symm
    | _ => rfl

/-- While none is set, the correlation id stays as it is until a message id that is equal to it is
replaced, and goes with the message id from then on. -/
theorem correlationId_setAll (e : Envelope) (h : correlationIds settings = []) :
    (e.setAll settings).correlationId =
      if e.correlationId ∈ (e.messageId :: messageIds settings).dropLast then
        (e.setAll settings).messageId
      else e.correlationId := by
  induction settings generalizing e with
  | nil => simp [messageIds, setAll]
  | cons setting rest ih =>
    cases setting with
    | messageId id =>
      have hrest := ih (e.withMessageId id) h
      have hids : messageIds (.messageId id :: rest) = id :: messageIds rest := rfl
      have hset : e.setAll (.messageId id :: rest) = (e.withMessageId id).setAll rest := rfl
      rw [hset, hids, List.dropLast_cons_cons, hrest]
      by_cases hsame : e.correlationId = e.messageId
      · -- the two go together from here on, also if no further message id is set
        have hfollows : (e.withMessageId id).correlationId = id := if_pos hsame
        have hequal : e.correlationId ∈ e.messageId :: (id :: messageIds rest).dropLast :=
          hsame ▸ List.mem_cons_self ..
        rw [if_pos hequal, hfollows, messageId_setAll]
        cases hmore : messageIds rest with
        | nil => exact ite_self _
        | cons next more => exact if_pos (List.mem_cons_self ..)
      · have hkept : (e.withMessageId id).correlationId = e.correlationId := if_neg hsame
        rw [hkept]
        simp [hsame]
        rfl
    | correlationId id => cases h
    | _ => exact ih (Setting.apply e _) h

theorem exists_last_correlation (settings : List Setting) :
    correlationIds settings = [] ∨
      ∃ before c after, settings = before ++ .correlationId c :: after ∧
        correlationIds after = [] := by
  induction settings with
  | nil => exact .inl rfl
  | cons setting rest ih =>
    rcases ih with hnone | ⟨before, c, after, rfl, hafter⟩
    · cases setting with
      | correlationId c => exact .inr ⟨[], c, rest, rfl, hnone⟩
      | _ => exact .inl hnone
    · exact .inr ⟨setting :: before, c, after, rfl, hafter⟩

theorem correlationIds_last (before : List Setting) (c : String) (h : correlationIds after = []) :
    correlationIds (before ++ .correlationId c :: after) = correlationIds before ++ [c] := by
  have hlast : correlationIds (.correlationId c :: after) = c :: correlationIds after := rfl
  rw [correlationIds, List.filterMap_append]
  exact congrArg _ (hlast.trans (h ▸ rfl))

/-- The message id that an envelope has in the end. -/
def lastMessageId (fresh : String) (settings : List Setting) : String :=
  (messageIds settings).getLastD fresh

/-- The correlation id that was set last was the message id as well, then or later, and the message
was given another one. -/
def Overtaken (fresh : String) (settings : List Setting) : Prop :=
  ∃ before c after, settings = before ++ .correlationId c :: after ∧ correlationIds after = [] ∧
    c ∈ (lastMessageId fresh before :: messageIds after).dropLast ∧
      lastMessageId fresh settings ≠ c

/-- After the last correlation id was set. -/
theorem correlationId_of_last (fresh : String) (body : ByteArray) (before : List Setting)
    (h : correlationIds after = []) :
    ((new fresh body).setAll (before ++ .correlationId c :: after)).correlationId =
      if c ∈ (lastMessageId fresh before :: messageIds after).dropLast then
        lastMessageId fresh (before ++ .correlationId c :: after)
      else c := by
  have hset : (new fresh body).setAll (before ++ .correlationId c :: after) =
      (((new fresh body).setAll before).withCorrelationId c).setAll after := setAll_append ..
  have hkept := correlationId_setAll (((new fresh body).setAll before).withCorrelationId c) h
  have hlast := messageId_setAll (new fresh body) (before ++ .correlationId c :: after)
  have hbefore : (((new fresh body).setAll before).withCorrelationId c).messageId =
      lastMessageId fresh before := messageId_setAll _ before
  rw [← hset, hlast, hbefore] at hkept
  exact hkept

/-- Where no correlation id is set, the two ids are one. -/
theorem correlationId_of_none (fresh : String) (body : ByteArray)
    (h : correlationIds settings = []) :
    ((new fresh body).setAll settings).correlationId = lastMessageId fresh settings := by
  rw [correlationId_setAll _ h, messageId_setAll]
  show (if fresh ∈ (fresh :: messageIds settings).dropLast then _ else fresh) = _
  cases hids : messageIds settings with
  | nil => simp [lastMessageId, hids]
  | cons id more => exact if_pos (List.mem_cons_self ..) |>.trans (hids ▸ rfl)

/-- An envelope has the ids that were set last, or else the fresh one, except that a correlation id
which was overtaken has given way to the message id. -/
theorem ids_setAll (fresh : String) (body : ByteArray) (settings : List Setting) :
    ((new fresh body).setAll settings).messageId = (messageIds settings).getLastD fresh ∧
      (((new fresh body).setAll settings).correlationId =
          (correlationIds settings).getLastD ((new fresh body).setAll settings).messageId ↔
        ¬ Overtaken fresh settings) ∧
      (Overtaken fresh settings → ((new fresh body).setAll settings).correlationId =
        ((new fresh body).setAll settings).messageId) := by
  have hmessage : ((new fresh body).setAll settings).messageId = lastMessageId fresh settings :=
    messageId_setAll _ settings
  have hgives : Overtaken fresh settings →
      ((new fresh body).setAll settings).correlationId = lastMessageId fresh settings := by
    rintro ⟨before, c, after, rfl, hafter, hmem, -⟩
    rw [correlationId_of_last fresh body before hafter, if_pos hmem]
  refine ⟨hmessage, ?_, fun h => (hgives h).trans hmessage.symm⟩
  rcases exists_last_correlation settings with hnone | ⟨before, c, after, hsettings, hafter⟩
  · have hnot : ¬ Overtaken fresh settings := by
      rintro ⟨before, c, after, rfl, hafter, -⟩
      rw [correlationIds_last before c hafter] at hnone
      simp at hnone
    refine iff_of_true ?_ hnot
    rw [hnone, hmessage]
    exact correlationId_of_none fresh body hnone
  · have hlast : correlationIds settings = correlationIds before ++ [c] :=
      hsettings ▸ correlationIds_last before c hafter
    rw [hlast, List.getLastD_concat]
    constructor
    · rintro hkept hovertaken
      obtain ⟨before', c', after', rfl, hafter', -, hne⟩ := id hovertaken
      have hsame := List.append_singleton_inj.mp
        ((correlationIds_last before' c' hafter').symm.trans hlast)
      exact hne ((hgives hovertaken).symm.trans (hkept.trans hsame.2.symm))
    · intro hnot
      have hvalue := correlationId_of_last (c := c) fresh body before hafter
      rw [← hsettings] at hvalue
      rw [hvalue]
      split
      · rename_i hmem
        exact Decidable.of_not_not fun hne =>
          hnot ⟨before, c, after, hsettings, hafter, hmem, hne⟩
      · rfl

/-- A message that begins a conversation under its own id and is given another id afterwards. -/
theorem not_forall_correlationId_setAll :
    ¬ ∀ (fresh : String) (body : ByteArray) (settings : List Setting),
      ((new fresh body).setAll settings).correlationId =
        (correlationIds settings).getLastD ((new fresh body).setAll settings).messageId := by
  intro h
  have hkept := h "fresh" "work".toUTF8 [.messageId "m-1", .correlationId "m-1", .messageId "m-2"]
  revert hkept
  decide

end MessageDispatch.Envelope
