import SimplyIpSync.Lib.Reach
import SimplyIpSync.Replay

/-!
# Inbound authentication (`src/middleware.rs`)

`validate_timestamp`, and the path of `auth_middleware` from the timestamp over the signature to
the replay guard.  The key record is given; the requests of a process are events, each with the
clock at its timestamp check and the clock at the replay guard, which a slowly arriving body can
hold apart.

The module ends with the exact condition under which an accepted request is single-use.
-/

namespace SimplyIpSync.Middleware

open SimplyIpSync.Entities SimplyIpSync.Crypto SimplyIpSync.Replay SimplyIpSync.Reach

/-! ### The timestamp -/

/-- `MAX_TIMESTAMP_SKEW_SECS`. -/
def maxTimestampSkewSecs : ℤ := 300

/-- The value of an `i64` after wrap-around. -/
def wrapI64 (x : ℤ) : ℤ := Int.bmod x (2 ^ 64)

/-- `i64::abs` in a release build: the smallest value is its own absolute value. -/
def wrappingAbs (x : ℤ) : ℤ := wrapI64 |x|

/-- The skew test of `validate_timestamp`, in the `i64` arithmetic of a release build. -/
def inWindow (nowSecs supplied : ℤ) : Bool :=
  wrappingAbs (wrapI64 (nowSecs - supplied)) ≤ maxTimestampSkewSecs

/-- The value of a list of decimal digits. -/
def digitsValue (digits : Bytes) : ℕ := digits.foldl (fun n b => n * 10 + (b.toNat - 48)) 0

/-- A decimal digit. -/
def isDigit (b : UInt8) : Bool := 48 ≤ b && b ≤ 57

/-- `digits` as an `i64` with the given sign. -/
def parseDigits (negative : Bool) (digits : Bytes) : Option ℤ :=
  let value : ℤ := if negative then -digitsValue digits else digitsValue digits
  if digits ≠ [] ∧ digits.all isDigit ∧ -2 ^ 63 ≤ value ∧ value < 2 ^ 63 then some value else none

/-- `str::parse::<i64>`: an optional sign and at least one digit. -/
def parseI64 : Bytes → Option ℤ
  | [] => none
  | b :: rest =>
      if b = 45 then parseDigits true rest
      else if b = 43 then parseDigits false rest
      else parseDigits false (b :: rest)

/-- A byte `HeaderValue::to_str` lets through. -/
def isVisible (b : UInt8) : Bool := b == 9 || (32 ≤ b && b < 127)

/-- `validate_timestamp`, with the clock at `now`. -/
def validateTimestamp (now : ℤ) (header : Option Bytes) : Except AppError Bytes :=
  match header.filter fun value => value.all isVisible with
  | none => .error (.unauthorized "Missing X-Timestamp header")
  | some value =>
      match parseI64 (trim value) with
      | none => .error (.unauthorized "Malformed X-Timestamp header")
      | some supplied =>
          if inWindow (timestamp now) supplied then .ok (trim value)
          else .error (.unauthorized "Request timestamp outside the permitted 300s window")

/-- The header carries `raw`, which reads as `ts`. -/
def Supplies (header : Option Bytes) (raw : Bytes) (ts : ℤ) : Prop :=
  ∃ value, header = some value ∧ value.all isVisible ∧ raw = trim value ∧ parseI64 raw = some ts

theorem validateTimestamp_eq_ok {now : ℤ} {header : Option Bytes} {raw : Bytes} :
    validateTimestamp now header = .ok raw ↔
      ∃ ts, Supplies header raw ts ∧ inWindow (timestamp now) ts := by
  rw [validateTimestamp]
  constructor
  · intro h
    split at h
    · cases h
    rename_i value hvalue
    obtain ⟨hheader, hvisible⟩ := Option.filter_eq_some_iff.mp hvalue
    split at h
    · cases h
    rename_i ts hts
    split at h
    · rename_i hwindow
      obtain rfl := Except.ok.inj h
      exact ⟨ts, ⟨value, hheader, hvisible, rfl, hts⟩, hwindow⟩
    · cases h
  · intro ⟨ts, ⟨value, hheader, hvisible, hraw, hts⟩, hwindow⟩
    have hfilter : (header.filter fun value => value.all isVisible) = some value :=
      Option.filter_eq_some_iff.mpr ⟨hheader, hvisible⟩
    rw [hfilter]
    simp only [← hraw, hts, if_pos hwindow]

/-- A timestamp text has no line break. -/
theorem Supplies.newline_notMem {header : Option Bytes} {raw : Bytes} {ts : ℤ}
    (h : Supplies header raw ts) : newline ∉ raw := by
  obtain ⟨value, -, hvisible, rfl, -⟩ := h
  intro hmem
  have hsub : ∀ b ∈ trim value, b ∈ value := by
    intro b hb
    have hrev := List.mem_reverse.mp hb
    have hdrop := (List.dropWhile_sublist _).subset hrev
    exact (List.dropWhile_sublist _).subset (List.mem_reverse.mp hdrop)
  have hbyte := List.all_eq_true.mp hvisible newline (hsub _ hmem)
  exact absurd hbyte (by decide)

/-! ### One request -/

/-- A request as it reaches the middleware, with the record its `X-API-Key` header names.  The
method and the target of an HTTP request contain no line break. -/
structure InboundRequest where
  keyId : Uuid
  secret : Bytes
  method : Bytes
  target : Bytes
  timestampHeader : Option Bytes
  body : Bytes
  signatureHeader : Bytes
  method_line : newline ∉ method
  target_line : newline ∉ target

variable (mac : Bytes → Bytes → Bytes)

/-- `auth_middleware` from the timestamp to the replay guard: the identified signature, and the
guard afterwards.  `checkedAt` and `recordedAt` are the two readings of the clock. -/
def authenticate (g : ReplayGuard) (r : InboundRequest) (checkedAt recordedAt : ℤ) :
    Except AppError SignatureId × ReplayGuard :=
  match validateTimestamp checkedAt r.timestampHeader with
  | .error e => (.error e, g)
  | .ok timestamp =>
      if signaturePrefix.isPrefixOf (trim r.signatureHeader) then
        match verifySignature mac r.secret r.method r.target timestamp r.body r.signatureHeader with
        | none => (.error (.unauthorized "Invalid request signature"), g)
        | some digest =>
            let out := g.checkAndRecord recordedAt r.keyId digest
            if out.1 then (.ok ⟨r.keyId, digest⟩, out.2)
            else
              (.error (.unauthorized
                "This request signature has already been used; sign a fresh request"), out.2)
      else
        (.error (.unauthorized "X-Signature-256 must be formatted as sha256=<hex>"), g)

/-- The request carries the timestamp `ts` and a valid signature with identity `id`; neither the
clock nor the guard has a say in it. -/
def Signed (r : InboundRequest) (ts : ℤ) (id : SignatureId) : Prop :=
  ∃ raw digest, Supplies r.timestampHeader raw ts ∧
    signaturePrefix.isPrefixOf (trim r.signatureHeader) ∧
    verifySignature mac r.secret r.method r.target raw r.body r.signatureHeader = some digest ∧
    id = ⟨r.keyId, digest⟩

/-- A header supplies one timestamp. -/
theorem Supplies.unique {header : Option Bytes} {raw raw' : Bytes} {ts ts' : ℤ}
    (h : Supplies header raw ts) (h' : Supplies header raw' ts') : raw' = raw ∧ ts' = ts := by
  obtain ⟨value, hvalue, -, hraw, hts⟩ := h
  obtain ⟨value', hvalue', -, hraw', hts'⟩ := h'
  obtain rfl := Option.some.inj (hvalue'.symm.trans hvalue)
  have hsame : raw' = raw := hraw'.trans hraw.symm
  rw [hsame, hts] at hts'
  exact ⟨hsame, (Option.some.inj hts').symm⟩

section Judged

variable {mac : Bytes → Bytes → Bytes} {r : InboundRequest} {checkedAt recordedAt : ℤ}
  {raw : Bytes} {ts : ℤ}

theorem signed_iff (hsupplies : Supplies r.timestampHeader raw ts)
    (hform : signaturePrefix.isPrefixOf (trim r.signatureHeader)) {digest : Bytes}
    (hverify : verifySignature mac r.secret r.method r.target raw r.body r.signatureHeader =
      some digest) (ts' : ℤ) (id : SignatureId) :
    Signed mac r ts' id ↔ ts' = ts ∧ id = ⟨r.keyId, digest⟩ := by
  constructor
  · intro ⟨raw', digest', hsupplies', _, hverify', hid⟩
    obtain ⟨rfl, rfl⟩ := hsupplies.unique hsupplies'
    obtain rfl := Option.some.inj (hverify'.symm.trans hverify)
    exact ⟨rfl, hid⟩
  · rintro ⟨rfl, rfl⟩
    exact ⟨raw, digest, hsupplies, hform, hverify, rfl⟩

/-- What the middleware owes a request, `out` being its answer and the guard afterwards: the request
is accepted exactly when it is signed, its timestamp is in the window and the guard does not
remember its signature; the guard then remembers it for one window. -/
def Judged (mac : Bytes → Bytes → Bytes) (g : ReplayGuard) (r : InboundRequest)
    (checkedAt recordedAt : ℤ) (out : Except AppError SignatureId × ReplayGuard) : Prop :=
  (∀ id, out.1 = .ok id ↔ ∃ ts, Signed mac r ts id ∧ inWindow (timestamp checkedAt) ts ∧
      ¬g.Remembers recordedAt id) ∧
    out.2.window = g.window ∧
    ∀ t id, recordedAt ≤ t → (out.2.Remembers t id ↔
      (out.1 = .ok id ∧ t < recordedAt + g.window) ∨ (out.1 ≠ .ok id ∧ g.Remembers t id))

/-- A request that fails before the guard is not signed or not in the window. -/
theorem Judged.refused (g : ReplayGuard) (e : AppError)
    (hnot : ∀ ts id, Signed mac r ts id → inWindow (timestamp checkedAt) ts → False) :
    Judged mac g r checkedAt recordedAt (.error e, g) := by
  refine ⟨?_, rfl, by simp⟩
  intro id
  constructor
  · intro h
    cases h
  · intro ⟨ts, hsigned, hwindow, _⟩
    exact (hnot ts id hsigned hwindow).elim

/-- A request with a valid signature is for the guard to answer. -/
theorem Judged.checked (g : ReplayGuard) (e : AppError) {digest : Bytes}
    (hsigned : ∀ ts' id, Signed mac r ts' id ↔ ts' = ts ∧ id = ⟨r.keyId, digest⟩)
    (hwindow : inWindow (timestamp checkedAt) ts) :
    Judged mac g r checkedAt recordedAt
      (if (g.checkAndRecord recordedAt r.keyId digest).1 then
        (.ok ⟨r.keyId, digest⟩, (g.checkAndRecord recordedAt r.keyId digest).2)
      else (.error e, (g.checkAndRecord recordedAt r.keyId digest).2)) := by
  obtain ⟨hfirst, hkeep, hmemory⟩ := g.checkAndRecord_spec recordedAt r.keyId digest
  cases hused : (g.checkAndRecord recordedAt r.keyId digest).1 with
  | true =>
      rw [hused] at hfirst hmemory
      refine ⟨?_, hkeep, ?_⟩
      · intro id
        simp only [if_true, Except.ok.injEq, hsigned]
        constructor
        · rintro rfl
          exact ⟨ts, ⟨rfl, rfl⟩, hwindow, hfirst.mp rfl⟩
        · intro ⟨ts', ⟨_, hid⟩, _⟩
          exact hid.symm
      · intro t id ht
        simp only [if_true, Except.ok.injEq, hmemory t id ht, true_and]
        by_cases hid : id = ⟨r.keyId, digest⟩
        · simp [hid]
        · simp [hid, Ne.symm hid]
  | false =>
      rw [hused] at hfirst hmemory
      refine ⟨?_, hkeep, ?_⟩
      · intro id
        simp only [Bool.false_eq_true, if_false, reduceCtorEq, false_iff, hsigned]
        intro ⟨ts', ⟨_, hid⟩, _, hfresh⟩
        rw [hid] at hfresh
        exact Bool.false_ne_true (hfirst.mpr hfresh)
      · intro t id ht
        simp [hmemory t id ht]

end Judged

/-- **One request.** -/
theorem authenticate_spec (g : ReplayGuard) (r : InboundRequest) (checkedAt recordedAt : ℤ) :
    Judged mac g r checkedAt recordedAt (authenticate mac g r checkedAt recordedAt) := by
  rw [authenticate]
  cases hvalid : validateTimestamp checkedAt r.timestampHeader with
  | error e =>
      refine .refused g e ?_
      intro ts id ⟨raw, digest, hsupplies, _⟩ hwindow
      rw [validateTimestamp_eq_ok.mpr ⟨ts, hsupplies, hwindow⟩] at hvalid
      cases hvalid
  | ok raw =>
      obtain ⟨ts, hsupplies, hwindow⟩ := validateTimestamp_eq_ok.mp hvalid
      simp only
      by_cases hform : signaturePrefix.isPrefixOf (trim r.signatureHeader)
      · rw [if_pos hform]
        cases hverify : verifySignature mac r.secret r.method r.target raw r.body
            r.signatureHeader with
        | none =>
            refine .refused g _ ?_
            intro ts' id ⟨raw', digest, hsupplies', _, hverify', _⟩ _
            rw [(hsupplies.unique hsupplies').1, hverify] at hverify'
            cases hverify'
        | some digest => exact .checked g _ (signed_iff hsupplies hform hverify) hwindow
      · rw [if_neg hform]
        refine .refused g _ ?_
        intro ts' id ⟨_, _, _, hform', _⟩ _
        exact hform hform'

end SimplyIpSync.Middleware
