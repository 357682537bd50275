import SimplyIpSync.Client.Delta

/-!
# The pages of a delta

`pageJournaled` adds a log of the page requests to the world.  `Fetched` is a run of the loop of
`get_ips_delta`, page by page; against a source that serves one list by offset and limit the loop
ends, and its run says which requests were made, which of them succeeded and what was returned.
-/

namespace SimplyIpSync.Client

open SimplyIpSync.Entities SimplyIpSync.Retry

variable {W : Type*}

/-! ### The journal -/

/-- One request for a page, with its answer. -/
structure PageRequest where
  offset : ℕ
  result : Except ClientError (List IpRecordResponse)

/-- The source answered with a page. -/
def PageRequest.isOk (r : PageRequest) : Bool :=
  match r.result with
  | .ok _ => true
  | .error _ => false

/-- The source answered with a status that is worth a retry. -/
def PageRequest.isTransient (r : PageRequest) : Bool :=
  match r.result with
  | .error (.remoteError status _) => isTransientStatus status
  | _ => false

/-- The same client with a log of its page requests kept beside the world. -/
def pageJournaled (http : Http W) : Http (W × List PageRequest) where
  postBatchOnce endpoint groupName records mode wl :=
    let out := http.postBatchOnce endpoint groupName records mode wl.1
    (out.1, out.2, wl.2)
  getIpsPage endpoint groupName since includeDeleted offset wl :=
    let out := http.getIpsPage endpoint groupName since includeDeleted offset wl.1
    (out.1, out.2, wl.2 ++ [⟨offset, out.1⟩])
  backoff attempt wl := (http.backoff attempt wl.1, wl.2)

/-- The requests for one page, from their answers. -/
def requestsAt (offset : ℕ) (answers : List (Except ClientError (List IpRecordResponse))) :
    List PageRequest :=
  answers.map fun result => ⟨offset, result⟩

/-! ### One page -/

section

variable {α : Type*} {send : W → Except ClientError α × W} {backoff : ℕ → W → W}
  {maxRetries attempt : ℕ} {w w' : W} {answers : List (Except ClientError α)}
  {result : Except ClientError α}

/-- Every answer before the last is a transient error, within the budget; and if the last one is a
transient error too, the budget is spent. -/
theorem Retried.budget (h : Retried send backoff maxRetries attempt w answers result w') :
    ∃ failed : List (ℕ × String),
      answers = failed.map (fun f => .error (.remoteError f.1 f.2)) ++ [result] ∧
      (∀ f ∈ failed, isTransientStatus f.1 = true) ∧
      (attempt ≤ maxRetries → attempt + failed.length ≤ maxRetries) ∧
      ∀ status body, result = .error (.remoteError status body) →
        isTransientStatus status = true → maxRetries ≤ attempt + failed.length := by
  induction h with
  | @final attempt _ result _ _ hlast => exact ⟨[], rfl, by simp, id, hlast⟩
  | @again attempt _ status body _ answers result _ _ htransient hleft _ ih =>
      obtain ⟨failed, rfl, hfailed, hbudget, hspent⟩ := ih
      refine ⟨(status, body) :: failed, rfl, List.forall_mem_cons.mpr ⟨htransient, hfailed⟩, ?_, ?_⟩
      · intro _
        have := hbudget hleft
        rw [List.length_cons]
        omega
      · intro status' body' hresult htransient'
        have := hspent status' body' hresult htransient'
        rw [List.length_cons]
        omega

end

/-! ### The loop -/

section

variable (http : Http W) (maxRetries : ℕ) (endpoint : VaultEndpoint) (groupName : String)
  (since : Option ℤ) (includeDeleted : Bool)

/-- The answers to the requests for the page at `offset`, retries included. -/
abbrev PageTried (offset : ℕ) : W → List (Except ClientError (List IpRecordResponse)) →
    Except ClientError (List IpRecordResponse) → W → Prop :=
  Retried (http.getIpsPage endpoint groupName since includeDeleted offset) http.backoff maxRetries 0

/-- A run of the loop of `get_ips_delta` from `offset` on, with the records fetched before it. -/
inductive Fetched : ℕ → List IpRecordResponse → W → List PageRequest →
    Except ClientError (List IpRecordResponse) → W → Prop
  | fail {offset allRecords w answers e w'} :
      PageTried http maxRetries endpoint groupName since includeDeleted offset w answers (.error e)
        w' →
      Fetched offset allRecords w (requestsAt offset answers) (.error e) w'
  | last {offset allRecords w answers page w'} :
      PageTried http maxRetries endpoint groupName since includeDeleted offset w answers (.ok page)
        w' →
      page.length < deltaPageSize →
      Fetched offset allRecords w (requestsAt offset answers) (.ok (allRecords ++ page)) w'
  | next {offset allRecords w answers page w₁ rest result w'} :
      PageTried http maxRetries endpoint groupName since includeDeleted offset w answers (.ok page)
        w₁ →
      deltaPageSize ≤ page.length →
      Fetched (offset + deltaPageSize) (allRecords ++ page) w₁ rest result w' →
      Fetched offset allRecords w (requestsAt offset answers ++ rest) result w'

/-- The source serves this list: every page it answers with is the part of it at the offset. -/
def ServesList (records : List IpRecordResponse) : Prop :=
  ∀ offset w page w',
    http.getIpsPage endpoint groupName since includeDeleted offset w = (.ok page, w') →
      page = (records.drop offset).take deltaPageSize

end

section

variable {http : Http W} {maxRetries : ℕ} {endpoint : VaultEndpoint} {groupName : String}
  {since : Option ℤ} {includeDeleted : Bool} {offset : ℕ}
  {allRecords records : List IpRecordResponse}
  {w w' : W} {answers : List (Except ClientError (List IpRecordResponse))}
  {trace : List PageRequest} {result : Except ClientError (List IpRecordResponse)}

theorem getIpsPageWithRetry_pageJournaled
    (h : PageTried http maxRetries endpoint groupName since includeDeleted offset w answers result
      w') (log : List PageRequest) :
    getIpsPageWithRetry (pageJournaled http) maxRetries endpoint groupName since includeDeleted
        offset (w, log) = (result, w', log ++ requestsAt offset answers) := by
  have hsend : ∀ (past : List (Except ClientError (List IpRecordResponse))) w result w₁,
      http.getIpsPage endpoint groupName since includeDeleted offset w = (result, w₁) →
      (pageJournaled http).getIpsPage endpoint groupName since includeDeleted offset
          (w, log ++ requestsAt offset past) =
        (result, (w₁, log ++ requestsAt offset (past ++ [result]))) := by
    intro past w result w₁ hsend
    simp only [pageJournaled, hsend, requestsAt, List.map_append, List.map_cons, List.map_nil,
      List.append_assoc]
  have hbackoff : ∀ (past : List (Except ClientError (List IpRecordResponse))) n w,
      (pageJournaled http).backoff n (w, log ++ requestsAt offset past) =
        (http.backoff n w, log ++ requestsAt offset past) := fun _ _ _ => rfl
  have hmap := Retried.map (fun past w => (w, log ++ requestsAt offset past)) hsend hbackoff h []
  have heq := hmap.retryFrom_eq
  rw [List.nil_append, requestsAt, List.map_nil, List.append_nil] at heq
  exact heq

/-- A page the loop gets is the part of the list at its offset. -/
theorem page_eq {page : List IpRecordResponse}
    (hserves : ServesList http endpoint groupName since includeDeleted records)
    (h : PageTried http maxRetries endpoint groupName since includeDeleted offset w answers
      (.ok page) w') : page = (records.drop offset).take deltaPageSize := by
  obtain ⟨w₀, w₁, hsend⟩ := h.sent
  exact hserves offset w₀ page w₁ hsend

theorem length_page {page : List IpRecordResponse}
    (hserves : ServesList http endpoint groupName since includeDeleted records)
    (h : PageTried http maxRetries endpoint groupName since includeDeleted offset w answers
      (.ok page) w') : page.length = min deltaPageSize (records.length - offset) := by
  rw [page_eq hserves h, List.length_take, List.length_drop]

/-- **The loop ends.**  Against a source that serves one list it makes one run, whatever the fuel,
as long as that covers the pages that are left. -/
theorem exists_fetched (maxRetries : ℕ)
    (hserves : ServesList http endpoint groupName since includeDeleted records)
    (offset : ℕ) (allRecords : List IpRecordResponse) (w : W) :
    ∃ trace result w',
      Fetched http maxRetries endpoint groupName since includeDeleted offset allRecords w trace
        result w' ∧
      ∀ fuel log, (records.length - offset) / deltaPageSize < fuel →
        getIpsDeltaFrom http maxRetries endpoint groupName since includeDeleted fuel offset
          allRecords w = some (result, w') ∧
        getIpsDeltaFrom (pageJournaled http) maxRetries endpoint groupName since includeDeleted fuel
          offset allRecords (w, log) = some (result, w', log ++ trace) := by
  induction hleft : records.length - offset using Nat.strong_induction_on
    generalizing offset allRecords w with
  | _ left ih =>
      subst hleft
      obtain ⟨answers, result, w₁, htried⟩ : ∃ answers result w₁, PageTried http maxRetries endpoint
          groupName since includeDeleted offset w answers result w₁ := by
        have hretried : ∃ answers, PageTried http maxRetries endpoint groupName since
            includeDeleted offset w answers _ _ := retryFrom_retried 0 w
        obtain ⟨answers, htried⟩ := hretried
        exact ⟨answers, _, _, htried⟩
      have hplain : getIpsPageWithRetry http maxRetries endpoint groupName since includeDeleted
          offset w = (result, w₁) := htried.retryFrom_eq
      cases result with
      | error e =>
          refine ⟨_, _, _, .fail htried, fun fuel log hfuel => ?_⟩
          obtain ⟨fuel, rfl⟩ := Nat.exists_eq_succ_of_ne_zero (Nat.zero_lt_of_lt hfuel).ne'
          simp only [getIpsDeltaFrom, getIpsPageWithRetry_pageJournaled htried, hplain, and_self]
      | ok page =>
          have hlength := length_page hserves htried
          by_cases hshort : page.length < deltaPageSize
          · refine ⟨_, _, _, .last htried hshort, fun fuel log hfuel => ?_⟩
            obtain ⟨fuel, rfl⟩ := Nat.exists_eq_succ_of_ne_zero (Nat.zero_lt_of_lt hfuel).ne'
            simp only [getIpsDeltaFrom, getIpsPageWithRetry_pageJournaled htried, hplain,
              if_pos hshort, and_self]
          · have hpos : 0 < deltaPageSize := by decide
            obtain ⟨rest, result, w', hfetched, hrun⟩ :=
              ih (records.length - (offset + deltaPageSize)) (by omega) (offset + deltaPageSize)
                (allRecords ++ page) w₁ rfl
            refine ⟨_, _, _, .next htried (not_lt.mp hshort) hfetched, fun fuel log hfuel => ?_⟩
            obtain ⟨fuel, rfl⟩ := Nat.exists_eq_succ_of_ne_zero (Nat.zero_lt_of_lt hfuel).ne'
            have hpages : (records.length - offset) / deltaPageSize =
                (records.length - (offset + deltaPageSize)) / deltaPageSize + 1 := by
              rw [← Nat.add_div_right _ hpos]
              congr 1
              omega
            rw [hpages] at hfuel
            obtain ⟨hrunPlain, hrunLogged⟩ :=
              hrun fuel (log ++ requestsAt offset answers) (by omega)
            simp only [getIpsDeltaFrom, getIpsPageWithRetry_pageJournaled htried, hplain,
              if_neg hshort, hrunPlain, hrunLogged, List.append_assoc, and_self]

/-! ### What the run says -/

/-- The requests for the page at `offset` that failed. -/
def failures (trace : List PageRequest) (offset : ℕ) : List PageRequest :=
  trace.filter fun r => r.offset == offset && !r.isOk

/-- The page at `offset` failed for good: with an error that is not worth a retry, or once more than
the budget allows. -/
def FailsForGood (maxRetries : ℕ) (trace : List PageRequest) (offset : ℕ) : Prop :=
  (∃ r ∈ failures trace offset, r.isTransient = false) ∨
    maxRetries < (failures trace offset).length

theorem mem_requestsAt {r : PageRequest} (h : r ∈ requestsAt offset answers) :
    r.offset = offset := by
  obtain ⟨answer, -, rfl⟩ := List.mem_map.mp h
  rfl

theorem failures_append (trace rest : List PageRequest) (o : ℕ) :
    failures (trace ++ rest) o = failures trace o ++ failures rest o := List.filter_append ..

theorem failures_eq_nil {trace : List PageRequest} {o : ℕ} (h : ∀ r ∈ trace, r.offset ≠ o) :
    failures trace o = [] := by
  rw [failures, List.filter_eq_nil_iff]
  intro r hr
  simp [h r hr]

/-- The requests for one page: transient failures within the budget, and one that ends it. -/
theorem requestsAt_eq
    (h : PageTried http maxRetries endpoint groupName since includeDeleted offset w answers result
      w') :
    ∃ failed : List PageRequest, requestsAt offset answers = failed ++ [⟨offset, result⟩] ∧
      (∀ r ∈ failed, r.offset = offset ∧ r.isOk = false ∧ r.isTransient = true) ∧
      failed.length ≤ maxRetries ∧
      (PageRequest.isTransient ⟨offset, result⟩ = true → maxRetries ≤ failed.length) := by
  obtain ⟨failed, rfl, hfailed, hbudget, hspent⟩ := h.budget
  rw [requestsAt, List.map_append]
  refine ⟨_, rfl, ?_, ?_, ?_⟩
  · intro r hr
    obtain ⟨answer, hanswer, rfl⟩ := List.mem_map.mp hr
    obtain ⟨f, hf, rfl⟩ := List.mem_map.mp hanswer
    exact ⟨rfl, rfl, hfailed f hf⟩
  · have := hbudget (Nat.zero_le _)
    simpa using this
  · intro htransient
    rw [List.length_map, List.length_map]
    cases result with
    | ok page => cases htransient
    | error e =>
        cases e with
        | remoteError status body => simpa using hspent status body rfl htransient
        | invalidUrl | decrypt | signing | request => cases htransient

/-- All requests but the last fail, so what was received was received last. -/
theorem requestsAt_pairwise
    (h : PageTried http maxRetries endpoint groupName since includeDeleted offset w answers result
      w') :
    (requestsAt offset answers).Pairwise fun r r' => r.isOk = true → r'.offset ≠ r.offset := by
  obtain ⟨failed, hrequests, hfailed, -, -⟩ := requestsAt_eq h
  rw [hrequests, List.pairwise_append]
  refine ⟨?_, List.pairwise_singleton _ _, ?_⟩
  · refine List.pairwise_of_forall_mem_list fun r hr r' _ hok => ?_
    rw [(hfailed r hr).2.1] at hok
    cases hok
  · intro r hr r' _ hok
    rw [(hfailed r hr).2.1] at hok
    cases hok

theorem failures_requestsAt {failed : List PageRequest} {last : PageRequest}
    (hrequests : requestsAt offset answers = failed ++ [last])
    (hfailed : ∀ r ∈ failed, r.offset = offset ∧ r.isOk = false ∧ r.isTransient = true)
    (hlast : last.offset = offset) :
    failures (requestsAt offset answers) offset =
      failed ++ if last.isOk then [] else [last] := by
  have hall : failures failed offset = failed := by
    rw [failures, List.filter_eq_self]
    intro r hr
    obtain ⟨hoffset, hok, -⟩ := hfailed r hr
    rw [hoffset, hok, beq_self_eq_true]
    rfl
  rw [hrequests, failures_append, hall, failures, List.filter_singleton, hlast, beq_self_eq_true]
  cases last.isOk <;> rfl

/-- The requests for a page that was got in the end. -/
theorem requestsAt_ok {page : List IpRecordResponse}
    (h : PageTried http maxRetries endpoint groupName since includeDeleted offset w answers
      (.ok page) w') :
    ¬ FailsForGood maxRetries (requestsAt offset answers) offset ∧
      (requestsAt offset answers).filter PageRequest.isOk = [⟨offset, .ok page⟩] := by
  obtain ⟨failed, hrequests, hfailed, hbudget, -⟩ := requestsAt_eq h
  have hfailures : failures (requestsAt offset answers) offset = failed := by
    rw [failures_requestsAt hrequests hfailed rfl]
    exact List.append_nil _
  refine ⟨?_, ?_⟩
  · rw [FailsForGood, hfailures]
    rintro (⟨r, hr, hfinal⟩ | hmany)
    · rw [(hfailed r hr).2.2] at hfinal
      cases hfinal
    · omega
  · have hnone : failed.filter PageRequest.isOk = [] := by
      rw [List.filter_eq_nil_iff]
      intro r hr
      rw [(hfailed r hr).2.1]
      exact Bool.false_ne_true
    rw [hrequests, List.filter_append, hnone]
    rfl

/-- The requests for a page that was never got. -/
theorem requestsAt_error {e : ClientError}
    (h : PageTried http maxRetries endpoint groupName since includeDeleted offset w answers
      (.error e) w') : FailsForGood maxRetries (requestsAt offset answers) offset := by
  obtain ⟨failed, hrequests, hfailed, -, hspent⟩ := requestsAt_eq h
  have hfailures : failures (requestsAt offset answers) offset = failed ++ [⟨offset, .error e⟩] :=
    failures_requestsAt hrequests hfailed rfl
  rw [FailsForGood, hfailures]
  cases htransient : PageRequest.isTransient ⟨offset, .error e⟩ with
  | false => exact .inl ⟨_, List.mem_append_right _ (List.mem_singleton.mpr rfl), htransient⟩
  | true =>
      right
      rw [List.length_append, List.length_singleton]
      exact Nat.lt_succ_of_le (hspent htransient)

/-- A run asks for no page before its first. -/
theorem Fetched.offset_le
    (h : Fetched http maxRetries endpoint groupName since includeDeleted offset allRecords w trace
      result w') : ∀ r ∈ trace, offset ≤ r.offset := by
  induction h with
  | fail | last => exact fun r hr => (mem_requestsAt hr).ge
  | next _ _ _ ih =>
      intro r hr
      rcases List.mem_append.mp hr with hr | hr
      · exact (mem_requestsAt hr).ge
      · exact (Nat.le_add_right _ _).trans (ih r hr)

/-- No page is asked for again once it was received. -/
theorem Fetched.never_again
    (h : Fetched http maxRetries endpoint groupName since includeDeleted offset allRecords w trace
      result w') : trace.Pairwise fun r r' => r.isOk = true → r'.offset ≠ r.offset := by
  induction h with
  | fail htried | last htried _ => exact requestsAt_pairwise htried
  | next htried _ hrest ih =>
      refine List.pairwise_append.mpr ⟨requestsAt_pairwise htried, ih, ?_⟩
      intro r hr r' hr' _
      have hlater := hrest.offset_le r' hr'
      have hpos : 0 < deltaPageSize := by decide
      rw [mem_requestsAt hr]
      omega

/-- The run ends with records exactly when no page failed for good. -/
theorem Fetched.ok_iff
    (h : Fetched http maxRetries endpoint groupName since includeDeleted offset allRecords w trace
      result w') : (∃ all, result = .ok all) ↔ ∀ o, ¬ FailsForGood maxRetries trace o := by
  have hother : ∀ {offset o : ℕ} {answers : List (Except ClientError (List IpRecordResponse))},
      o ≠ offset → ¬ FailsForGood maxRetries (requestsAt offset answers) o := by
    intro offset o answers ho
    rw [FailsForGood, failures_eq_nil fun r hr => mem_requestsAt hr ▸ ho.symm]
    simp
  induction h with
  | fail htried =>
      refine iff_of_false (by simp) fun hnone => ?_
      exact hnone _ (requestsAt_error htried)
  | @last offset _ _ _ _ _ htried _ =>
      refine iff_of_true ⟨_, rfl⟩ fun o => ?_
      by_cases ho : o = offset
      · exact ho ▸ (requestsAt_ok htried).1
      · exact hother ho
  | @next offset _ _ answers _ _ rest _ _ htried _ hrest ih =>
      refine ih.trans (forall_congr' fun o => not_congr ?_)
      have hpos : 0 < deltaPageSize := by decide
      by_cases ho : o = offset
      · have hnil : failures rest o = [] := failures_eq_nil fun r hr => by
          have := hrest.offset_le r hr
          omega
        refine iff_of_false ?_ ?_
        · rw [FailsForGood, hnil]
          simp
        · rw [FailsForGood, failures_append, hnil, List.append_nil]
          exact ho ▸ (requestsAt_ok htried).1
      · have hnil : failures (requestsAt offset answers) o = [] := failures_eq_nil fun r hr =>
          mem_requestsAt hr ▸ Ne.symm ho
        rw [FailsForGood, FailsForGood, failures_append, hnil, List.nil_append]

/-- The offsets of the pages from `offset` on, the short one included. -/
def pageOffsets (records : List IpRecordResponse) (offset : ℕ) : List ℕ :=
  (List.range ((records.length - offset) / deltaPageSize + 1)).map fun k =>
    offset + k * deltaPageSize

theorem pageOffsets_of_lt (h : records.length - offset < deltaPageSize) :
    pageOffsets records offset = [offset] := by
  rw [pageOffsets, Nat.div_eq_of_lt h]
  simp

theorem pageOffsets_of_le (h : deltaPageSize ≤ records.length - offset) :
    pageOffsets records offset = offset :: pageOffsets records (offset + deltaPageSize) := by
  have hpos : 0 < deltaPageSize := by decide
  have hpages : (records.length - offset) / deltaPageSize =
      (records.length - (offset + deltaPageSize)) / deltaPageSize + 1 := by
    rw [← Nat.add_div_right _ hpos]
    congr 1
    omega
  rw [pageOffsets, hpages, List.range_succ_eq_map, List.map_cons, List.map_map, pageOffsets]
  congr 1
  refine List.map_congr_left fun k _ => ?_
  rw [Function.comp_apply, Nat.succ_mul]
  omega

/-- **A run that gets its pages** returns what is left of the list, and each page once. -/
theorem Fetched.of_ok (hserves : ServesList http endpoint groupName since includeDeleted records)
    (h : Fetched http maxRetries endpoint groupName since includeDeleted offset allRecords w trace
      result w') {all : List IpRecordResponse} (hok : result = .ok all) :
    all = allRecords ++ records.drop offset ∧
      (trace.filter PageRequest.isOk).map PageRequest.offset = pageOffsets records offset := by
  induction h with
  | fail => cases hok
  | last htried hshort =>
      have hlength := length_page hserves htried
      obtain rfl := Except.ok.inj hok
      refine ⟨?_, ?_⟩
      · rw [page_eq hserves htried, List.take_of_length_le (by rw [List.length_drop]; omega)]
      · rw [(requestsAt_ok htried).2, pageOffsets_of_lt (by omega)]
        rfl
  | @next offset _ _ _ _ _ _ _ _ htried hlong _ ih =>
      have hlength := length_page hserves htried
      have hpages : pageOffsets records offset =
          offset :: pageOffsets records (offset + deltaPageSize) :=
        pageOffsets_of_le (by omega)
      obtain ⟨hall, hoffsets⟩ := ih hok
      refine ⟨?_, ?_⟩
      · rw [hall, page_eq hserves htried, List.append_assoc, ← List.drop_drop,
          List.take_append_drop]
      · rw [List.filter_append, List.map_append, (requestsAt_ok htried).2, hoffsets, hpages]
        rfl

end

/-! ### The whole list -/

/-- What a fetch of this list is to do, from its page requests and its result. -/
structure DeltaFetched (maxRetries : ℕ) (records : List IpRecordResponse)
    (trace : List PageRequest) (result : Except ClientError (List IpRecordResponse)) : Prop where
  ok_iff : result = .ok records ↔ ∀ offset, ¬ FailsForGood maxRetries trace offset
  error_iff : (∃ e, result = .error e) ↔ ∃ offset, FailsForGood maxRetries trace offset
  pages : result = .ok records → (trace.filter PageRequest.isOk).map PageRequest.offset =
    (List.range (records.length / deltaPageSize + 1)).map fun k => k * deltaPageSize
  never_again : trace.Pairwise fun r r' => r.isOk = true → r'.offset ≠ r.offset

/-- **Paging returns the whole list.**  Against a source that serves one list by offset and limit
the loop ends; it returns the list, after one successful request for each page, if no page fails
for good, and an error without records if one does. -/
theorem getIpsDelta_whole_list (http : Http W) (maxRetries : ℕ) (endpoint : VaultEndpoint)
    (groupName : String) (since : Option ℤ) (includeDeleted : Bool)
    (records : List IpRecordResponse)
    (hserves : ServesList http endpoint groupName since includeDeleted records) (w : W) :
    ∃ trace result w', DeltaFetched maxRetries records trace result ∧
      ∀ fuel, records.length / deltaPageSize < fuel →
        getIpsDelta http maxRetries fuel endpoint groupName since includeDeleted w =
          some (result, w') ∧
        getIpsDelta (pageJournaled http) maxRetries fuel endpoint groupName since includeDeleted
          (w, []) = some (result, w', trace) := by
  obtain ⟨trace, result, w', hfetched, hrun⟩ :=
    exists_fetched maxRetries hserves 0 [] w
  have hok : (∃ all, result = .ok all) ↔ result = .ok records := by
    constructor
    · rintro ⟨all, hall⟩
      rw [hall, (hfetched.of_ok hserves hall).1]
      rfl
    · exact fun h => ⟨records, h⟩
  have hiff := hok.symm.trans hfetched.ok_iff
  refine ⟨trace, result, w', ⟨hiff, ?_, ?_, hfetched.never_again⟩, fun fuel => hrun fuel []⟩
  · rw [← not_iff_not, not_exists, not_exists, ← hiff]
    cases result with
    | ok all => exact iff_of_true (by simp) (hok.mp ⟨all, rfl⟩)
    | error e => exact iff_of_false (by simp) (by simp)
  · intro hresult
    rw [(hfetched.of_ok hserves hresult).2, pageOffsets, Nat.sub_zero]
    simp only [Nat.zero_add]

def twoRecords : List IpRecordResponse :=
  [⟨"8.8.8.8/32", "ban", none, false, none, none, none, none⟩,
    ⟨"1.1.1.1/32", "ban", none, false, none, none, none, none⟩]

/-- Serves two records, after two answers with a `503`. -/
def busyTwice : Http ℕ where
  postBatchOnce _ _ _ _ busy := (.error (.remoteError 500 ""), busy)
  getIpsPage _ _ _ _ offset busy :=
    if busy < 2 then (.error (.remoteError 503 "database busy"), busy + 1)
    else (.ok ((twoRecords.drop offset).take deltaPageSize), busy)
  backoff _ busy := busy

theorem getIpsDelta_whole_list_busyTwice :
    let endpoint : VaultEndpoint := ⟨1, "edge", "https://edge", "key", "secret"⟩
    ∃ trace, getIpsDelta (pageJournaled busyTwice) 3 1 endpoint "ban" none true (0, []) =
        some (.ok twoRecords, 2, trace) ∧ trace.length = 3 ∧
      (trace.filter PageRequest.isOk).map PageRequest.offset = [0] := by
  intro endpoint
  have hserves : ServesList busyTwice endpoint "ban" none true twoRecords := by
    intro offset busy page w' hpage
    by_cases hbusy : busy < 2
    · simp only [busyTwice, if_pos hbusy, Prod.mk.injEq, reduceCtorEq, false_and] at hpage
    · simp only [busyTwice, if_neg hbusy, Prod.mk.injEq, Except.ok.injEq] at hpage
      exact hpage.1.symm
  obtain ⟨trace, result, w', hfetched, hrun⟩ := getIpsDelta_whole_list busyTwice 3 endpoint "ban"
    none true twoRecords hserves 0
  obtain ⟨-, hlogged⟩ := hrun 1 (by decide)
  have hvalue : (getIpsDelta (pageJournaled busyTwice) 3 1 endpoint "ban" none true (0, [])).map
      (fun out => (out.1.toOption, out.2.1, out.2.2.length)) = some (some twoRecords, 2, 3) := by
    decide +kernel
  rw [hlogged] at hvalue
  obtain ⟨hresult, hw, hlength⟩ :
      result.toOption = some twoRecords ∧ w' = 2 ∧ trace.length = 3 := by
    simpa using hvalue
  have hok : result = .ok twoRecords := by
    cases result with
    | ok all => exact congrArg Except.ok (Option.some.inj hresult)
    | error e => cases hresult
  subst hok hw
  exact ⟨trace, hlogged, hlength, hfetched.pages rfl⟩

end SimplyIpSync.Client
