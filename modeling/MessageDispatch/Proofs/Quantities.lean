import MessageDispatch.Proofs.Numerals
import MessageDispatch.Proofs.Reading
import MessageDispatch.Settings.Dispatch
import MessageDispatch.Settings.RabbitMq

/-! Settings that are numbers. A configuration may hold such a number as it is or in a string of its
decimal digits. The two mean the same to most of these settings; three of them take no string at
all, and a configuration that holds one of those in a string is refused. -/
namespace MessageDispatch

/-- The document of an integer: the integer itself as far as it is kept exactly. -/
def Document.integer (n : Int) : Document := .number (Json.Literal.ofInt n).number?

/-- It is what the decimal digits of the integer are read as. -/
theorem Document.parse?_toString (n : Int) : parse? (toString n) = some (.integer n) := by
  have hend : Json.Ends [] := by
    intro c hc
    cases hc
  have htokens := Json.scan_literal (Json.written_ofInt n) hend
  rw [List.append_nil] at htokens
  rw [parse?, whole?_eq_some, Json.tokens, htokens]
  rfl

namespace Settings

open Json (digit? digit?_digitChar exists_numeral toList_toString_of_nonneg toList_toString_of_neg)

variable {σ : Type}

/-! ## Numbers and strings -/

/-- An integer as a whole number below `size`. -/
def below? (size : Nat) (n : Int) : Option Nat :=
  if 0 ≤ n ∧ n < size then some n.toNat else none

/-- The whole number below `size` that a number token has. -/
def tokenBelow? (size : Nat) (x : Option Number) : Option Nat :=
  (x.bind fun x => (Json.number x).natural?).filter (· < size)

/-- An integer is a whole number if it is kept exactly, and all that are asked for are. -/
theorem tokenBelow?_ofInt {size : Nat} (hsize : size ≤ UInt64.size) (n : Int) :
    tokenBelow? size (Json.Literal.ofInt n).number? = below? size n := by
  have hmax : UInt64.size = 18446744073709551616 := rfl
  rw [tokenBelow?, below?, Json.number?_ofInt]
  by_cases hexact : Number.isExact n = true
  · rw [if_pos hexact]
    cases n with
    | ofNat m => by_cases hm : m < size <;> simp [Json.natural?, Option.filter, hm]
    | negSucc m => rfl
  · have hout : ¬ (0 ≤ n ∧ n < size) := by
      simp only [Number.isExact, decide_eq_true_eq] at hexact
      omega
    rw [if_neg hexact, if_neg hout]
    cases (Json.Literal.ofInt n).decimal? <;> rfl

theorem mapM_digit? {ds : List Nat} (h : ∀ d ∈ ds, d < 10) :
    (ds.map Nat.digitChar).mapM digit? = some ds := by
  induction ds with
  | nil => rfl
  | cons d ds ih =>
    obtain ⟨hd, hds⟩ := List.forall_mem_cons.mp h
    simp [List.mapM_cons, digit?_digitChar d hd, ih hds]

theorem digits?_toDigits (n : Nat) : digits? (Nat.toDigits 10 n) = some n := by
  obtain ⟨ds, h⟩ := exists_numeral n
  have hdigits := mapM_digit? h.digits
  have hne : ds ≠ [] := by
    rcases h.lead with rfl | ⟨d, rest, rfl, -⟩ <;> simp
  rw [h.text]
  cases ds with
  | nil => exact absurd rfl hne
  | cons d ds =>
    have hplus : Nat.digitChar d ≠ '+' := by
      intro hplus
      have hd := digit?_digitChar d (h.digits d List.mem_cons_self)
      rw [hplus] at hd
      cases hd
    simp only [digits?, List.map_cons] at hdigits ⊢
    simp [hplus, hdigits, h.value]

/-- The digits that an integer is written with stand for it, unless it is negative. -/
theorem digits?_toString (n : Int) :
    digits? (toString n).toList = if 0 ≤ n then some n.toNat else none := by
  by_cases hn : 0 ≤ n
  · rw [toList_toString_of_nonneg hn, digits?_toDigits, if_pos hn]
    congr 1
    omega
  · have hminus : digit? '-' = none := rfl
    rw [toList_toString_of_neg (Int.not_le.mp hn), if_neg hn]
    simp [digits?, List.mapM_cons, hminus]

/-! ## The readers of numbers -/

theorem ofDocument?_natural (size : Nat) (x : Option Number) :
    (natural size).ofDocument? (.number x) = tokenBelow? size x := by
  rcases x with _ | ⟨n | n⟩ | _ <;> try rfl
  by_cases hn : n < size <;>
    simp [Reader.ofDocument?, Document.spelled, natural, tokenBelow?, Json.natural?, Option.filter,
      hn, Except.toOption]

theorem ofDocument?_naturalOrText (size : Nat) (x : Option Number) :
    (naturalOrText size).ofDocument? (.number x) = tokenBelow? size x := by
  rw [(makes_naturalOrText size).ofDocument?_eq]
  cases x <;> rfl

theorem ofDocument?_retryPolicy (room : Nat) (x : Option Number) :
    (RetryPolicy.read room).ofDocument? (.number x) =
      (tokenBelow? UInt32.size x).map fun n => .times (.ofNat n) := by
  rw [(makes_retryPolicy room).ofDocument?_eq]
  rcases x with _ | ⟨n | n⟩ | _ <;> try rfl
  by_cases hn : n < UInt32.size <;>
    simp [Document.value?, RetryPolicy.ofJson?, tokenBelow?, Json.natural?, Option.filter, hn]

/-- A number in a string. -/
theorem ofDocument?_naturalOrText_toString (size : Nat) (n : Int) :
    (naturalOrText size).ofDocument? (.string (some (toString n))) = below? size n := by
  rw [(makes_naturalOrText size).ofDocument?_eq]
  show (digits? (toString n).toList).filter (· < size) = _
  rw [digits?_toString, below?]
  by_cases hn : 0 ≤ n
  · by_cases hsize : n < size <;> simp [hn, hsize, Option.filter]
  · simp [hn]

/-! ## Settings that are numbers -/

/-- A setting that is a number. -/
structure Quantity (σ : Type) where
  name : String
  /-- The numbers below this are taken. -/
  size : Nat
  /-- Is a number also taken from a string? -/
  quotable : Bool
  /-- The record with this number. -/
  set : σ → Nat → σ

/-- A text of an object with these members. -/
def Configures (text : String) (members : List (Option String × Document)) : Prop :=
  Document.parse? text = some (.object members)

namespace Quantity

variable (q : Quantity σ) (n : Int)

/-- Two texts of one configuration, but that this setting is an integer in the first and the string
of its digits in the second. -/
def Quoted (text quoted : String) : Prop :=
  ∃ before after, Configures text (before ++ (some q.name, .integer n) :: after) ∧
    Configures quoted (before ++ (some q.name, .string (some (toString n))) :: after)

/-- Does the string mean the same as the integer, in a configuration of whatever else? -/
def Alike (parse : String → Except Fault σ) : Prop :=
  ∀ text quoted, q.Quoted n text quoted → (parse quoted).toOption = (parse text).toOption

/-- How the setting is read. -/
structure Reads (parse : String → Except Fault σ) : Prop where
  /-- The integer is taken if it is in range and no other member makes the setting, and nothing but
  the setting depends on it. -/
  number : ∀ before after text rest,
    Configures text (before ++ (some q.name, .integer n) :: after) →
      Configures rest (before ++ after) →
        (parse text).toOption =
          if Sets (before ++ after) q.name ∨ n < 0 ∨ q.size ≤ n then none
          else (parse rest).toOption.map (q.set · n.toNat)
  alike : q.quotable = true → q.Alike n parse
  /-- A string is refused where it does not stand for the integer. -/
  refused : q.quotable = false → ∀ text quoted, q.Quoted n text quoted →
    (parse quoted).toOption = none

/-- A setting of a record that takes numbers like this. -/
structure Describes (f : Field σ) : Prop where
  name : q.name = f.name
  number : ∀ s n, (f.read s).ofDocument? (.integer n) = (below? q.size n).map (q.set s)
  string : ∀ s n, (f.read s).ofDocument? (.string (some (toString n))) =
    if q.quotable then (f.read s).ofDocument? (.integer n) else none

theorem describes_naturalOrText (name : String) {size : Nat} (hsize : size ≤ UInt64.size)
    (set : σ → Nat → σ) :
    Describes ⟨name, size, true, set⟩ (field name (naturalOrText size) set) where
  name := rfl
  number := by
    intro s n
    rw [ofDocument?_field, Document.integer, ofDocument?_naturalOrText, tokenBelow?_ofInt hsize]
  string := by
    intro s n
    rw [ofDocument?_field, ofDocument?_field, ofDocument?_naturalOrText_toString, Document.integer,
      ofDocument?_naturalOrText, tokenBelow?_ofInt hsize, if_pos rfl]

theorem describes_option_natural (name : String) {size : Nat} (hsize : size ≤ UInt64.size)
    (set : σ → Option Nat → σ) :
    Describes ⟨name, size, false, fun s n => set s (some n)⟩
      (field name (option (natural size)) set) where
  name := rfl
  number := by
    intro s n
    rw [ofDocument?_field, (makes_natural size).option.ofDocument?_eq]
    show (Option.map some ((natural size).ofDocument? (.integer n))).map (set s) = _
    rw [Document.integer, ofDocument?_natural, tokenBelow?_ofInt hsize, Option.map_map]
    rfl
  string := by
    intro s n
    rw [ofDocument?_field, (makes_natural size).option.ofDocument?_eq]
    rfl

theorem describes_retryPolicy (name : String) (room : Nat) (set : σ → RetryPolicy → σ) :
    Describes ⟨name, UInt32.size, false, fun s n => set s (.times (.ofNat n))⟩
      (field name (RetryPolicy.read room) set) where
  name := rfl
  number := by
    intro s n
    rw [ofDocument?_field, Document.integer, ofDocument?_retryPolicy, tokenBelow?_ofInt (by decide),
      Option.map_map]
    rfl
  string := by
    intro s n
    rw [ofDocument?_field, (makes_retryPolicy room).ofDocument?_eq]
    rfl

variable {q n}

section
variable {fields : List (Field σ)} {f : Field σ} {s : σ}

/-- What a text holds is the record of its members. -/
theorem toOption_readText (h : Steady fields) {text : String}
    {members : List (Option String × Document)} (htext : Configures text members) :
    (readText (record fields true s) text).toOption = ofMembers fields s members :=
  (makes_record h true s).readText htext

variable (hlawful : Lawful fields) (hfind : fields.find? (·.name == f.name) = some f)
include hlawful hfind

theorem Describes.toOption_number (h : q.Describes f)
    {before after : List (Option String × Document)} {text rest : String}
    (htext : Configures text (before ++ (some q.name, .integer n) :: after))
    (hrest : Configures rest (before ++ after)) :
    (readText (record fields true s) text).toOption =
      if Sets (before ++ after) q.name ∨ n < 0 ∨ q.size ≤ n then none
      else (readText (record fields true s) rest).toOption.map (q.set · n.toNat) := by
  rw [toOption_readText hlawful.steady htext, toOption_readText hlawful.steady hrest, h.name,
    ofMembers_insert hlawful hfind]
  simp only [h.number, below?]
  by_cases hsets : Sets (before ++ after) f.name
  · rw [if_pos hsets, if_pos (.inl hsets)]
  · rw [if_neg hsets]
    by_cases hrange : 0 ≤ n ∧ n < q.size
    · have htaken : ¬ (Sets (before ++ after) f.name ∨ n < 0 ∨ q.size ≤ n) := by
        rintro (hmade | hout | hout)
        · exact hsets hmade
        · omega
        · omega
      rw [if_pos hrange, if_neg htaken]
      cases ofMembers fields s (before ++ after) <;> rfl
    · rw [if_neg hrange, if_pos (.inr (by omega))]
      cases ofMembers fields s (before ++ after) <;> rfl

theorem Describes.toOption_quoted (h : q.Describes f) {text quoted : String}
    (hquoted : q.Quoted n text quoted) :
    (readText (record fields true s) quoted).toOption =
      if q.quotable then (readText (record fields true s) text).toOption else none := by
  obtain ⟨before, after, htext, hquoted⟩ := hquoted
  rw [toOption_readText hlawful.steady htext, toOption_readText hlawful.steady hquoted, h.name,
    ofMembers_insert hlawful hfind, ofMembers_insert hlawful hfind]
  simp only [h.string]
  cases q.quotable with
  | true => rfl
  | false => cases ofMembers fields s (before ++ after) <;> simp

/-- A setting that takes numbers is read like that in any record with it. -/
theorem Describes.reads (h : q.Describes f) : q.Reads n (readText (record fields true s)) where
  number _ _ _ _ := h.toOption_number hlawful hfind
  alike := by
    intro hquotable text quoted hquoted
    rw [h.toOption_quoted hlawful hfind hquoted, if_pos hquotable]
  refused := by
    intro hnot text quoted hquoted
    rw [h.toOption_quoted hlawful hfind hquoted, hnot]
    rfl

end

end Quantity

end Settings

/-! ## The settings of a group and of a broker -/

namespace DispatchSettings

open Settings

/-- The settings of a group that are numbers. -/
def quantities : List (Quantity DispatchSettings) :=
  [⟨"reconnect_delay_ms", UInt64.size, true, fun s n => { s with reconnectDelayMs := n }⟩,
    ⟨"rpc_timeout_ms", UInt64.size, true, fun s n => { s with rpcTimeoutMs := n }⟩,
    ⟨"publish_timeout_ms", UInt64.size, true, fun s n => { s with publishTimeoutMs := n }⟩,
    ⟨"max_workers", UInt64.size, false, fun s n => { s with maxWorkers := some n }⟩,
    ⟨"default_retry", UInt32.size, false, fun s n => { s with defaultRetry := .times (.ofNat n) }⟩]

theorem lawful_fields : Lawful fields where
  steady := by
    simp [Steady, fields, makes_bool.steady, (makes_naturalOrText _).steady,
      (makes_natural _).option.steady, (makes_retryPolicy _).steady]
  commutes := by
    simp [fields, commutes_field]

/-- There is a setting for each of them. -/
theorem exists_describes : ∀ q ∈ quantities,
    ∃ f, fields.find? (·.name == f.name) = some f ∧ q.Describes f := by
  have hmost : UInt64.size ≤ UInt64.size := Nat.le_refl _
  intro q hq
  simp only [quantities, List.mem_cons, List.not_mem_nil, or_false] at hq
  rcases hq with rfl | rfl | rfl | rfl | rfl
  · exact ⟨_, rfl, Quantity.describes_naturalOrText _ hmost _⟩
  · exact ⟨_, rfl, Quantity.describes_naturalOrText _ hmost _⟩
  · exact ⟨_, rfl, Quantity.describes_naturalOrText _ hmost _⟩
  · exact ⟨_, rfl, Quantity.describes_option_natural _ hmost
      fun (s : DispatchSettings) n => { s with maxWorkers := n }⟩
  · exact ⟨_, rfl, Quantity.describes_retryPolicy _ _
      fun (s : DispatchSettings) p => { s with defaultRetry := p }⟩

end DispatchSettings

namespace RabbitMqSettings

open Settings

/-- The settings of a broker that are numbers. -/
def quantities : List (Quantity RabbitMqSettings) :=
  [⟨"port", UInt16.size, true, fun s n => { s with port := n }⟩,
    ⟨"connection_timeout_seconds", UInt64.size, false,
      fun s n => { s with connectionTimeoutSeconds := some n }⟩,
    ⟨"prefetch_count", UInt16.size, true, fun s n => { s with prefetchCount := n }⟩,
    ⟨"max_connections", UInt64.size, true, fun s n => { s with maxConnections := n }⟩,
    ⟨"max_channels", UInt64.size, true, fun s n => { s with maxChannels := n }⟩]

theorem steady_tls : Steady TlsSettings.fields := by
  simp [Steady, TlsSettings.fields, makes_string.option.steady]

theorem lawful_fields : Lawful fields where
  steady := by
    simp [Steady, fields, makes_string.steady, (makes_naturalOrText _).steady,
      (makes_natural _).option.steady, (makes_record steady_tls _ _).option.steady,
      TlsSettings.read]
  commutes := by
    simp [fields, commutes_field]

/-- There is a setting for each of them. -/
theorem exists_describes : ∀ q ∈ quantities,
    ∃ f, fields.find? (·.name == f.name) = some f ∧ q.Describes f := by
  have hmost : UInt64.size ≤ UInt64.size := Nat.le_refl _
  have hless : UInt16.size ≤ UInt64.size := by decide
  intro q hq
  simp only [quantities, List.mem_cons, List.not_mem_nil, or_false] at hq
  rcases hq with rfl | rfl | rfl | rfl | rfl
  · exact ⟨_, rfl, Quantity.describes_naturalOrText _ hless _⟩
  · exact ⟨_, rfl, Quantity.describes_option_natural _ hmost
      fun (s : RabbitMqSettings) n => { s with connectionTimeoutSeconds := n }⟩
  · exact ⟨_, rfl, Quantity.describes_naturalOrText _ hless _⟩
  · exact ⟨_, rfl, Quantity.describes_naturalOrText _ hmost _⟩
  · exact ⟨_, rfl, Quantity.describes_naturalOrText _ hmost _⟩

end RabbitMqSettings

namespace Settings

/-- What becomes of an integer in any of the settings that are numbers. -/
structure TakesInteger (n : Int) : Prop where
  /-- The string of its digits, read as JSON itself, is the integer. -/
  written : Document.parse? (toString n) = some (.integer n)
  dispatch : ∀ q ∈ DispatchSettings.quantities, q.Reads n DispatchSettings.parse
  rabbitMq : ∀ q ∈ RabbitMqSettings.quantities, q.Reads n RabbitMqSettings.parse

/-- Every integer means the same as its digits in a string to the settings that are quotable, and is
the only way to write the number for the others. -/
theorem takes_integer (n : Int) : TakesInteger n where
  written := Document.parse?_toString n
  dispatch := by
    intro q hq
    obtain ⟨f, hfind, h⟩ := DispatchSettings.exists_describes q hq
    exact h.reads DispatchSettings.lawful_fields hfind
  rabbitMq := by
    intro q hq
    obtain ⟨f, hfind, h⟩ := RabbitMqSettings.exists_describes q hq
    exact h.reads RabbitMqSettings.lawful_fields hfind

/-- A port in a string, beside the name of the host. -/
theorem takes_integer_port :
    (RabbitMqSettings.parse "\x7b\"uri\":\"rabbit\",\"port\":\"5671\"\x7d").toOption =
      some { RabbitMqSettings.default with host := "rabbit", port := 5671 } := by
  have hport := (takes_integer 5671).rabbitMq _ List.mem_cons_self
  have htext : Configures "\x7b\"uri\":\"rabbit\",\"port\":5671\x7d"
      ([(some "uri", .string (some "rabbit"))] ++ [(some "port", .integer 5671)]) := rfl
  have hquoted : Configures "\x7b\"uri\":\"rabbit\",\"port\":\"5671\"\x7d"
      ([(some "uri", .string (some "rabbit"))] ++
        [(some "port", .string (some (toString 5671)))]) := rfl
  have hrest : Configures "\x7b\"uri\":\"rabbit\"\x7d"
      ([(some "uri", .string (some "rabbit"))] ++ []) := rfl
  have hhost : (RabbitMqSettings.parse "\x7b\"uri\":\"rabbit\"\x7d").toOption =
      some { RabbitMqSettings.default with host := "rabbit" } := by decide
  rw [hport.alike rfl _ _ ⟨_, _, htext, hquoted⟩, hport.number _ _ _ _ htext hrest,
    if_neg (by decide), hhost]
  rfl

/-- A number of workers in a string is refused. -/
theorem not_forall_alike :
    ¬ ∀ n : Int,
      (∀ q ∈ DispatchSettings.quantities, q.Alike n DispatchSettings.parse) ∧
        ∀ q ∈ RabbitMqSettings.quantities, q.Alike n RabbitMqSettings.parse := by
  intro h
  have hworkers := (h 4).1 _ (.tail _ (.tail _ (.tail _ List.mem_cons_self)))
  have hsame := hworkers "\x7b\"max_workers\":4\x7d" "\x7b\"max_workers\":\"4\"\x7d"
    ⟨[], [], rfl, rfl⟩
  revert hsame
  decide

end Settings

end MessageDispatch
