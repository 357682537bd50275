import SimplyIpSync.Client.Delta
import SimplyIpSync.Middleware

/-!
# Signed requests (`signed_headers` and the requests of `client.rs`)

What `post_batch_once` and `get_ips_page` send: the method, the target and the body that are signed,
with the second of the sending.  How a body is written as JSON and a query as a URL is the
work of libraries and a parameter here; the target of a request is one line.

Two requests signed with one secret have the same signature exactly when they say the same in the
same second.
-/

namespace SimplyIpSync.Client

open SimplyIpSync.Entities SimplyIpSync.Crypto SimplyIpSync.Middleware

/-! ### The timestamp header -/

/-- The decimal digits of a number. -/
def decimalDigits (n : ℕ) : Bytes :=
  if n = 0 then [48] else (Nat.digits 10 n).reverse.map fun d => UInt8.ofNat (48 + d)

/-- `timestamp().to_string()`. -/
def timestampText (secs : ℤ) : Bytes :=
  if secs < 0 then 45 :: decimalDigits secs.natAbs else decimalDigits secs.natAbs

theorem toNat_digit {d : ℕ} (hd : d < 10) : (UInt8.ofNat (48 + d)).toNat = 48 + d := by
  rw [UInt8.toNat_ofNat']
  omega

/-- Every byte is a digit. -/
theorem mem_decimalDigits {n : ℕ} {b : UInt8} (h : b ∈ decimalDigits n) :
    ∃ d < 10, b = UInt8.ofNat (48 + d) := by
  rw [decimalDigits] at h
  split at h
  · exact ⟨0, by omega, List.mem_singleton.mp h⟩
  · obtain ⟨d, hd, rfl⟩ := List.mem_map.mp h
    exact ⟨d, Nat.digits_lt_base (by omega) (List.mem_reverse.mp hd), rfl⟩

/-- **The digits are read back** by the reader of the timestamp header. -/
theorem digitsValue_decimalDigits (n : ℕ) : digitsValue (decimalDigits n) = n := by
  rw [decimalDigits]
  split
  · rename_i hzero
    rw [hzero]
    rfl
  · have hfold : ∀ digits : List ℕ, (∀ d ∈ digits, d < 10) →
        digitsValue (digits.reverse.map fun d => UInt8.ofNat (48 + d)) = Nat.ofDigits 10 digits := by
      intro digits
      induction digits with
      | nil => exact fun _ => rfl
      | cons d digits ih =>
          intro hlt
          have hrest := ih fun d hd => hlt d (List.mem_cons_of_mem _ hd)
          have hd := toNat_digit (hlt d List.mem_cons_self)
          rw [digitsValue] at hrest ⊢
          rw [List.reverse_cons, List.map_append, List.foldl_append, hrest, List.map_singleton,
            List.foldl_cons, List.foldl_nil, hd, Nat.ofDigits_cons]
          omega
    rw [hfold _ fun d hd => Nat.digits_lt_base (by omega) hd, Nat.ofDigits_digits]

theorem ne_of_mem_decimalDigits {n : ℕ} {b : UInt8} (h : b ∈ decimalDigits n) :
    b ≠ 45 ∧ b ≠ newline := by
  obtain ⟨d, hd, rfl⟩ := mem_decimalDigits h
  have hvalue := toNat_digit hd
  constructor
  · intro heq
    rw [heq] at hvalue
    have : (45 : UInt8).toNat = 45 := rfl
    omega
  · intro heq
    rw [heq] at hvalue
    have : newline.toNat = 10 := rfl
    omega

theorem newline_notMem_timestampText (secs : ℤ) : newline ∉ timestampText secs := by
  rw [timestampText]
  split
  · intro h
    rcases List.mem_cons.mp h with h | h
    · exact absurd h (by decide)
    · exact (ne_of_mem_decimalDigits h).2 rfl
  · exact fun h => (ne_of_mem_decimalDigits h).2 rfl

/-- **The text names the second.** -/
theorem timestampText_injective {a b : ℤ} (h : timestampText a = timestampText b) : a = b := by
  have hdigits : ∀ {m n : ℕ}, decimalDigits m = decimalDigits n → m = n := by
    intro m n hmn
    rw [← digitsValue_decimalDigits m, hmn, digitsValue_decimalDigits]
  have hminus : ∀ {m n : ℕ}, (45 : UInt8) :: decimalDigits m ≠ decimalDigits n := by
    intro m n hmn
    exact (ne_of_mem_decimalDigits (hmn ▸ List.mem_cons_self)).1 rfl
  rw [timestampText, timestampText] at h
  by_cases ha : a < 0
  · rw [if_pos ha] at h
    by_cases hb : b < 0
    · rw [if_pos hb] at h
      have habs := hdigits (List.cons.inj h).2
      omega
    · rw [if_neg hb] at h
      exact absurd h hminus
  · rw [if_neg ha] at h
    by_cases hb : b < 0
    · rw [if_pos hb] at h
      exact absurd h.symm hminus
    · rw [if_neg hb] at h
      have habs := hdigits h
      omega

/-! ### Requests -/

/-- A request to a vault: a batch, or a page of a delta. -/
inductive OutboundRequest
  | batch (groupName : String) (records : List BatchRecordInput) (mode : BatchMode)
  | page (groupName : String) (since : Option ℤ) (includeDeleted : Bool) (offset : ℕ)
  deriving DecidableEq

/-- What libraries do for a request: open the signing secret, write the body and the query. -/
structure Encoding where
  secret : VaultEndpoint → Bytes
  /-- `serde_json::to_vec` of the payload. -/
  batchBody : String → List BatchRecordInput → BatchMode → Bytes
  /-- The query pairs of a page; `since` in whole seconds. -/
  pageQuery : String → Option ℤ → Bool → ℕ → Bytes
  query_line : ∀ groupName since includeDeleted offset,
    newline ∉ pageQuery groupName since includeDeleted offset

namespace OutboundRequest

variable (enc : Encoding)

def method : OutboundRequest → Bytes
  | batch _ _ _ => ascii "POST"
  | page _ _ _ _ => ascii "GET"

/-- The signed target: the path, for a page with its query. -/
def target : OutboundRequest → Bytes
  | batch _ _ _ => ascii "/api/records/batch"
  | page groupName since includeDeleted offset =>
      ascii "/api/ips?" ++ enc.pageQuery groupName (since.map timestamp) includeDeleted offset

def body : OutboundRequest → Bytes
  | batch groupName records mode => enc.batchBody groupName records mode
  | page _ _ _ _ => []

/-- The message that `signed_headers` has signed, at the moment `t`. -/
def message (r : OutboundRequest) (t : ℤ) : Bytes :=
  canonicalV1Payload r.method (r.target enc) (timestampText (timestamp t)) (r.body enc)

/-- The requests say the same. -/
def SameWire (r r' : OutboundRequest) : Prop :=
  r.method = r'.method ∧ r.target enc = r'.target enc ∧ r.body enc = r'.body enc

instance (r r' : OutboundRequest) : Decidable (SameWire enc r r') :=
  inferInstanceAs (Decidable (_ ∧ _))

variable {enc}

theorem newline_notMem_method (r : OutboundRequest) : newline ∉ r.method := by
  cases r with
  | batch groupName records mode =>
      show newline ∉ ascii "POST"
      decide
  | page groupName since includeDeleted offset =>
      show newline ∉ ascii "GET"
      decide

theorem newline_notMem_target (r : OutboundRequest) : newline ∉ r.target enc := by
  cases r with
  | batch groupName records mode =>
      show newline ∉ ascii "/api/records/batch"
      decide
  | page groupName since includeDeleted offset =>
      have hpath : newline ∉ ascii "/api/ips?" := by decide
      intro h
      rcases List.mem_append.mp h with h | h
      · exact hpath h
      · exact enc.query_line _ _ _ _ h

/-- **The message names the request and its second.** -/
theorem message_eq_iff {r r' : OutboundRequest} {t t' : ℤ} :
    r.message enc t = r'.message enc t' ↔ SameWire enc r r' ∧ timestamp t = timestamp t' := by
  constructor
  · intro h
    obtain ⟨hmethod, htarget, htime, hbody⟩ := canonicalV1Payload_inj r.newline_notMem_method
      r.newline_notMem_target (newline_notMem_timestampText _) r'.newline_notMem_method
      r'.newline_notMem_target (newline_notMem_timestampText _) h
    exact ⟨⟨hmethod, htarget, hbody⟩, timestampText_injective htime⟩
  · intro ⟨⟨hmethod, htarget, hbody⟩, htime⟩
    rw [message, message, hmethod, htarget, hbody, htime]

end OutboundRequest

end SimplyIpSync.Client
