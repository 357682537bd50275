import SimplyIpSync.Client.Delivery

/-!
# Paging through a delta (`get_ips_page_with_retry`, `get_ips_delta`)

The source serves its delta in pages; the loop asks for the next one until a page comes back
short.  A source that never serves a short page keeps the loop going for ever, so the loop runs
on fuel: `none` means that the fuel ran out, never that the fetch failed.
-/

namespace SimplyIpSync.Client

open SimplyIpSync.Entities

variable {W : Type*}

/-- `DELTA_PAGE_SIZE`. -/
def deltaPageSize : ℕ := 5000

/-- `get_ips_page_with_retry`. -/
def getIpsPageWithRetry (http : Http W) (maxRetries : ℕ) (endpoint : VaultEndpoint)
    (groupName : String) (since : Option ℤ) (includeDeleted : Bool) (offset : ℕ) (w : W) :
    Except ClientError (List IpRecordResponse) × W :=
  retryFrom (http.getIpsPage endpoint groupName since includeDeleted offset) http.backoff
    maxRetries 0 w

/-- The `loop` of `get_ips_delta`, at most `fuel` more pages. -/
def getIpsDeltaFrom (http : Http W) (maxRetries : ℕ) (endpoint : VaultEndpoint)
    (groupName : String) (since : Option ℤ) (includeDeleted : Bool) :
    ℕ → ℕ → List IpRecordResponse → W → Option (Except ClientError (List IpRecordResponse) × W)
  | 0, _, _, _ => none
  | fuel + 1, offset, allRecords, w =>
      match getIpsPageWithRetry http maxRetries endpoint groupName since includeDeleted offset w with
      | (.error e, w) => some (.error e, w)
      | (.ok page, w) =>
          if page.length < deltaPageSize then some (.ok (allRecords ++ page), w)
          else
            getIpsDeltaFrom http maxRetries endpoint groupName since includeDeleted fuel
              (offset + deltaPageSize) (allRecords ++ page) w

/-- `get_ips_delta`. -/
def getIpsDelta (http : Http W) (maxRetries fuel : ℕ) (endpoint : VaultEndpoint)
    (groupName : String) (since : Option ℤ) (includeDeleted : Bool) (w : W) :
    Option (Except ClientError (List IpRecordResponse) × W) :=
  getIpsDeltaFrom http maxRetries endpoint groupName since includeDeleted fuel 0 [] w

/-! ### Fuel -/

section

variable {http : Http W} {maxRetries : ℕ} {endpoint : VaultEndpoint} {groupName : String}
  {since : Option ℤ} {includeDeleted : Bool}

theorem getIpsDeltaFrom_succ {fuel offset : ℕ} {allRecords : List IpRecordResponse} {w : W}
    {out : Except ClientError (List IpRecordResponse) × W}
    (h : getIpsDeltaFrom http maxRetries endpoint groupName since includeDeleted fuel offset
      allRecords w = some out) :
    getIpsDeltaFrom http maxRetries endpoint groupName since includeDeleted (fuel + 1) offset
      allRecords w = some out := by
  induction fuel generalizing offset allRecords w with
  | zero => cases h
  | succ fuel ih =>
      rw [getIpsDeltaFrom] at h ⊢
      generalize getIpsPageWithRetry http maxRetries endpoint groupName since includeDeleted offset
        w = answer at h ⊢
      obtain ⟨result, w₁⟩ := answer
      cases result with
      | error e => exact h
      | ok page =>
          by_cases hshort : page.length < deltaPageSize
          · simp only [if_pos hshort] at h ⊢
            exact h
          · simp only [if_neg hshort] at h ⊢
            exact ih h

/-- More fuel does not change what a fetch returns. -/
theorem getIpsDelta_mono {fuel fuel' : ℕ} (hle : fuel ≤ fuel') {w : W}
    {out : Except ClientError (List IpRecordResponse) × W}
    (h : getIpsDelta http maxRetries fuel endpoint groupName since includeDeleted w = some out) :
    getIpsDelta http maxRetries fuel' endpoint groupName since includeDeleted w = some out := by
  induction fuel', hle using Nat.le_induction with
  | base => exact h
  | succ fuel' _ ih => exact getIpsDeltaFrom_succ ih

/-- A fetch returns one thing, whatever the fuel. -/
theorem getIpsDelta_unique {fuel fuel' : ℕ} {w : W}
    {out out' : Except ClientError (List IpRecordResponse) × W}
    (h : getIpsDelta http maxRetries fuel endpoint groupName since includeDeleted w = some out)
    (h' : getIpsDelta http maxRetries fuel' endpoint groupName since includeDeleted w = some out') :
    out = out' := by
  have hleft := getIpsDelta_mono (Nat.le_max_left fuel fuel') h
  have hright := getIpsDelta_mono (Nat.le_max_right fuel fuel') h'
  exact Option.some.inj (hleft.symm.trans hright)

/-- The source never answers with a full page at this offset. -/
def NeverFull (http : Http W) (endpoint : VaultEndpoint) (groupName : String) (since : Option ℤ)
    (includeDeleted : Bool) (offset : ℕ) : Prop :=
  ∀ w page w', http.getIpsPage endpoint groupName since includeDeleted offset w = (.ok page, w') →
    page.length < deltaPageSize

/-- What the last attempt answered is what one attempt answered. -/
theorem getIpsPageWithRetry_sent {offset : ℕ} {w w' : W}
    {result : Except ClientError (List IpRecordResponse)}
    (h : getIpsPageWithRetry http maxRetries endpoint groupName since includeDeleted offset w =
      (result, w')) :
    ∃ w₀ w₁, http.getIpsPage endpoint groupName since includeDeleted offset w₀ = (result, w₁) := by
  obtain ⟨answers, hanswers⟩ : ∃ answers, Retried
      (http.getIpsPage endpoint groupName since includeDeleted offset) http.backoff maxRetries 0 w
      answers _ _ := retryFrom_retried 0 w
  rw [getIpsPageWithRetry] at h
  rw [h] at hanswers
  exact hanswers.sent

/-- **The loop ends** where a page that is still to come is never full. -/
theorem getIpsDeltaFrom_isSome (k : ℕ) {fuel offset : ℕ} {allRecords : List IpRecordResponse}
    {w : W} (hfull : NeverFull http endpoint groupName since includeDeleted
      (offset + k * deltaPageSize)) (hfuel : k < fuel) :
    (getIpsDeltaFrom http maxRetries endpoint groupName since includeDeleted fuel offset allRecords
      w).isSome := by
  induction k generalizing fuel offset allRecords w with
  | zero =>
      obtain ⟨fuel, rfl⟩ := Nat.exists_eq_succ_of_ne_zero hfuel.ne'
      rw [getIpsDeltaFrom]
      cases hpage : getIpsPageWithRetry http maxRetries endpoint groupName since includeDeleted
        offset w with
      | mk result w₁ =>
          cases result with
          | error e => rfl
          | ok page =>
              obtain ⟨w₀, w₂, hsent⟩ := getIpsPageWithRetry_sent hpage
              rw [Nat.zero_mul, Nat.add_zero] at hfull
              simp only [if_pos (hfull w₀ page w₂ hsent), Option.isSome_some]
  | succ k ih =>
      obtain ⟨fuel, rfl⟩ := Nat.exists_eq_succ_of_ne_zero (Nat.zero_lt_of_lt hfuel).ne'
      rw [getIpsDeltaFrom]
      rcases getIpsPageWithRetry http maxRetries endpoint groupName since includeDeleted offset w
        with ⟨result, w₁⟩
      cases result with
      | error e => rfl
      | ok page =>
          simp only
          split
          · rfl
          · refine ih ?_ (Nat.lt_of_succ_lt_succ hfuel)
            rwa [Nat.succ_mul, Nat.add_comm (k * deltaPageSize), ← Nat.add_assoc] at hfull

end

/-! ### The journal does not see page requests -/

section

variable (http : Http W) (maxRetries : ℕ) (endpoint : VaultEndpoint) (groupName : String)
  (since : Option ℤ) (includeDeleted : Bool)

theorem getIpsPageWithRetry_journaled (offset : ℕ) (w : W) (log : List Attempt) :
    getIpsPageWithRetry (journaled http) maxRetries endpoint groupName since includeDeleted offset
        (w, log) =
      ((getIpsPageWithRetry http maxRetries endpoint groupName since includeDeleted offset w).1,
        (getIpsPageWithRetry http maxRetries endpoint groupName since includeDeleted offset w).2,
        log) := by
  obtain ⟨answers, hanswers⟩ : ∃ answers, Retried
      (http.getIpsPage endpoint groupName since includeDeleted offset) http.backoff maxRetries 0 w
      answers
      (getIpsPageWithRetry http maxRetries endpoint groupName since includeDeleted offset w).1
      (getIpsPageWithRetry http maxRetries endpoint groupName since includeDeleted offset w).2 :=
    retryFrom_retried 0 w
  have hsend : ∀ (_ : List (Except ClientError (List IpRecordResponse))) w result w₁,
      http.getIpsPage endpoint groupName since includeDeleted offset w = (result, w₁) →
      (journaled http).getIpsPage endpoint groupName since includeDeleted offset (w, log) =
        (result, (w₁, log)) := by
    intro _ w result w₁ hsend
    simp only [journaled, hsend]
  exact (Retried.map (fun _ w => (w, log)) hsend (fun _ _ _ => rfl) hanswers []).retryFrom_eq

theorem getIpsDeltaFrom_journaled (fuel offset : ℕ) (allRecords : List IpRecordResponse) (w : W)
    (log : List Attempt) :
    getIpsDeltaFrom (journaled http) maxRetries endpoint groupName since includeDeleted fuel offset
        allRecords (w, log) =
      (getIpsDeltaFrom http maxRetries endpoint groupName since includeDeleted fuel offset
        allRecords w).map fun out => (out.1, out.2, log) := by
  induction fuel generalizing offset allRecords w with
  | zero => rfl
  | succ fuel ih =>
      simp only [getIpsDeltaFrom, getIpsPageWithRetry_journaled]
      rcases getIpsPageWithRetry http maxRetries endpoint groupName since includeDeleted offset w
        with ⟨result, w₁⟩
      cases result with
      | error e => rfl
      | ok page =>
          by_cases hshort : page.length < deltaPageSize
          · simp only [if_pos hshort, Option.map_some]
          · simp only [if_neg hshort, ih]

end

/-- Fetching leaves the journal of the deliveries alone. -/
theorem getIpsDelta_journaled (http : Http W) (maxRetries fuel : ℕ) (endpoint : VaultEndpoint)
    (groupName : String) (since : Option ℤ) (includeDeleted : Bool) (w : W)
    (log : List Attempt) :
    getIpsDelta (journaled http) maxRetries fuel endpoint groupName since includeDeleted (w, log) =
      (getIpsDelta http maxRetries fuel endpoint groupName since includeDeleted w).map
        fun out => (out.1, out.2, log) :=
  getIpsDeltaFrom_journaled http maxRetries endpoint groupName since includeDeleted fuel 0 [] w log

end SimplyIpSync.Client
