import SimplyIpSync.Dashboard.FeedForm
import SimplyIpSync.Jobs.Fetch

/-!
# The feed form, opened and saved again

What the form writes is kept in a shape that it shows without loss: a trimmed user agent, and
headers with trimmed names and texts for values.  `FromForms.kept` follows this through any number
of saves, and `saved_again_alike` says what it is good for.
-/

namespace SimplyIpSync.Dashboard

open SimplyIpSync.Entities SimplyIpSync.Storage SimplyIpSync.Api SimplyIpSync.Reach
open SimplyIpSync.Program SimplyIpSync.Program.Prog SimplyIpSync.Parsers
open SimplyIpSync.Parsers.JsonPath
open SimplyIpSync.Jobs.Fetch (FetchOptions textFields)

/-! ### What is sent -/

section Sent

variable {fields fields' : List (String × Value)}

/-- The same headers are sent, and the same user agent. -/
def SendsSame (options options' : FetchOptions) : Prop :=
  options.userAgent = options'.userAgent ∧
    ∀ header, header ∈ options.headers ↔ header ∈ options'.headers

/-- **The same fields are fetched with the same options.** -/
theorem sendsSame_of_sameFields (h : SameFields fields fields') (hdistinct : Distinct fields)
    (hdistinct' : Distinct fields') : SendsSame (optionsOf fields) (optionsOf fields') := by
  refine ⟨h.bind (fun _ _ hsame => hsame.asStr) "user_agent", fun header => ?_⟩
  rw [mem_headers_optionsOf hdistinct, mem_headers_optionsOf hdistinct']
  exact ⟨header_of_sameFields h, header_of_sameFields (SameFields.symm h)⟩

end Sent

/-! ### What is kept -/

/-- Headers as the form writes them. -/
structure KeptHeaders (hs : List (String × Value)) : Prop where
  nodup : (hs.map Prod.fst).Nodup
  names : ∀ h ∈ hs, IsHeaderName h.1 ∧ jsTrim h.1 = h.1
  texts : ∀ h ∈ hs, ∃ text, h.2 = .string text

theorem KeptHeaders.setHeader {hs : List (String × Value)} (h : KeptHeaders hs)
    (row : String × String) : KeptHeaders (setHeader hs row) := by
  rw [Dashboard.setHeader]
  split
  · rename_i hname
    obtain ⟨hnodup, hnames, htexts⟩ := h
    have hmem : ∀ h ∈ setField hs (jsTrim row.1) (.string row.2),
        h ∈ hs ∨ h = (jsTrim row.1, .string row.2) := by
      intro h hh
      rcases List.mem_append.mp hh with hold | hnew
      · exact .inl (List.mem_of_mem_filter hold)
      · exact .inr (List.mem_singleton.mp hnew)
    refine ⟨?_, fun h hh => ?_, fun h hh => ?_⟩
    · rw [setField, List.map_append, List.nodup_append]
      refine ⟨hnodup.sublist (List.filter_sublist.map _), by simp, ?_⟩
      intro n hn n' hn'
      obtain ⟨h, hh, rfl⟩ := List.mem_map.mp hn
      obtain rfl : n' = jsTrim row.1 := by simpa using hn'
      simpa using (List.mem_filter.mp hh).2
    · rcases hmem h hh with hold | rfl
      · exact hnames h hold
      · exact ⟨hname, jsTrim_jsTrim row.1⟩
    · rcases hmem h hh with hold | rfl
      · exact htexts h hold
      · exact ⟨row.2, rfl⟩
  · exact h

theorem keptHeaders_headersOf (rows : List (String × String)) : KeptHeaders (headersOf rows) := by
  have hall : ∀ hs, KeptHeaders hs → KeptHeaders (rows.foldl setHeader hs) := by
    induction rows with
    | nil => exact fun hs h => h
    | cons row rows ih => exact fun hs h => ih _ (h.setHeader row)
  exact hall [] ⟨List.nodup_nil, List.forall_mem_nil _, List.forall_mem_nil _⟩

/-- **Rows of kept headers** are put together to the same headers. -/
theorem headersOf_kept {browser : Browser} (htext : ∀ text, browser.textOf (.string text) = text)
    {hs : List (String × Value)} (h : KeptHeaders hs) :
    headersOf (hs.map fun h => (h.1, browser.textOf h.2)) = hs := by
  have hall : ∀ front, (∀ f ∈ front, ∀ h ∈ hs, f.1 ≠ h.1) →
      (hs.map fun h => (h.1, browser.textOf h.2)).foldl setHeader front = front ++ hs := by
    induction hs with
    | nil => exact fun front _ => (List.append_nil front).symm
    | cons first hs ih =>
        intro front hfront
        obtain ⟨hnodup, hnames, htexts⟩ := h
        obtain ⟨hname, htrim⟩ := hnames first List.mem_cons_self
        obtain ⟨text, hfirst⟩ := htexts first List.mem_cons_self
        rw [List.map_cons, List.nodup_cons] at hnodup
        have hset : setHeader front (first.1, browser.textOf first.2) = front ++ [first] := by
          have hkept : front.filter (fun field => decide (field.1 ≠ first.1)) = front :=
            List.filter_eq_self.mpr fun f hf =>
              decide_eq_true (hfront f hf first List.mem_cons_self)
          show (if IsHeaderName (jsTrim first.1) then
            setField front (jsTrim first.1) (.string (browser.textOf first.2)) else front) = _
          rw [htrim, if_pos hname, setField, hkept, hfirst, htext, ← hfirst]
        rw [List.map_cons, List.foldl_cons, hset, ih]
        · rw [List.append_assoc]
          rfl
        · exact ⟨hnodup.2, fun h hh => hnames h (List.mem_cons_of_mem _ hh),
            fun h hh => htexts h (List.mem_cons_of_mem _ hh)⟩
        · intro f hf h hh
          rcases List.mem_append.mp hf with hold | hnew
          · exact hfront f hold h (List.mem_cons_of_mem _ hh)
          · obtain rfl := List.mem_singleton.mp hnew
            intro heq
            exact hnodup.1 (heq ▸ List.mem_map_of_mem hh)
  exact hall [] (List.forall_mem_nil _)

/-- A configuration as the form writes it. -/
structure KeptConfig (fields : List (String × Value)) : Prop where
  userAgent : ∀ v, get fields "user_agent" = some v →
    ∃ text, v = .string text ∧ text ≠ "" ∧ jsTrim text = text ∧ IsLine text
  headers : ∀ v, get fields "headers" = some v →
    ∃ hs, v = .object hs ∧ hs ≠ [] ∧ KeptHeaders hs

theorem KeptConfig.of_sameFields {fields fields' : List (String × Value)} (h : KeptConfig fields)
    (hsame : SameFields fields fields') (hdistinct : Distinct fields') : KeptConfig fields' := by
  constructor
  · intro v' hv'
    obtain ⟨v, hv, hvalue⟩ := hsame.symm.get_eq_some hv'
    obtain ⟨text, rfl, hkept⟩ := h.userAgent v hv
    cases hvalue
    exact ⟨text, rfl, hkept⟩
  · intro v' hv'
    obtain ⟨v, hv, hvalue⟩ := hsame.symm.get_eq_some hv'
    obtain ⟨hs, rfl, hne, hnodup, hnames, htexts⟩ := h.headers v hv
    cases v' <;> cases hvalue
    rename_i hs' hisSome hvalues
    have hheaders : SameFields hs' hs := .object hisSome hvalues
    have hnodup' := hdistinct.2 _ _ hv'
    have hback : ∀ f ∈ hs', ∃ w, (f.1, w) ∈ hs ∧ SameValue f.2 w := by
      intro f hf
      obtain ⟨w, hw, hsamew⟩ := hheaders.get_eq_some ((get_eq_some_iff hnodup').mpr hf)
      exact ⟨w, mem_of_get_eq_some hw, hsamew⟩
    refine ⟨hs', rfl, ?_, hnodup', fun f hf => ?_, fun f hf => ?_⟩
    · rintro rfl
      exact hne (sameFields_nil.mp hheaders.symm)
    · obtain ⟨w, hw, -⟩ := hback f hf
      exact hnames (f.1, w) hw
    · obtain ⟨w, hw, hsamew⟩ := hback f hf
      obtain ⟨text, htext⟩ := htexts _ hw
      obtain rfl : w = .string text := htext
      exact ⟨text, by cases hf : f.2 <;> rw [hf] at hsamew <;> cases hsamew; rfl⟩

/-- How the browser and the server get along: the browser reads what the server reads, reads what it
prints itself, and prints what the server has read so that the server reads it again. -/
structure Browser.Agrees (browser : Browser) (fromStr : String → Except String Value) : Prop where
  parse_read : ∀ {raw v}, fromStr raw = .ok v →
    ∃ v', browser.parse raw = some v' ∧ SameValue v v'
  parse_printed : ∀ {raw fields fields'}, fromStr raw = .ok (.object fields) →
    SameFields fields fields' → ∃ v, SameValue (.object (restOf fields')) v ∧
      browser.parse (browser.stringifyIndented (.object (restOf fields'))) = some v
  read_printed : ∀ {raw v v'}, fromStr raw = .ok v → SameValue v v' →
    ∃ w, fromStr (browser.stringify v') = .ok w ∧ SameValue v' w
  distinct : ∀ {raw fields}, fromStr raw = .ok (.object fields) → Distinct fields
  distinct_parse : ∀ {raw fields}, browser.parse raw = some (.object fields) → Distinct fields
  empty : ∀ v, fromStr "" ≠ .ok v
  printed_ne : ∀ v, browser.stringifyIndented v ≠ ""
  textOf : ∀ text, browser.textOf (.string text) = text
  textOrEmpty : ∀ text, browser.textOrEmpty (.string text) = text

section Again

variable {browser : Browser} {fromStr : String → Except String Value}

theorem FeedForm.Plain.kept {form : FeedForm} (h : form.Plain browser)
    {merged : List (String × Value)} (hmerged : form.mergedConfig browser = some merged) :
    KeptConfig merged := by
  obtain ⟨rest, hrest, rfl⟩ := Option.map_eq_some_iff.mp hmerged
  have hplain : get (browser.spread rest) "headers" = none ∧
      get (browser.spread rest) "user_agent" = none := by
    split at hrest
    · obtain rfl := Option.some.inj hrest
      exact ⟨rfl, rfl⟩
    · exact h rest hrest
  constructor
  · intro v hv
    rw [get_mergedFields] at hv
    by_cases hagent : jsTrim form.userAgent = ""
    · simp [hagent, hplain.2] at hv
    · simp only [hagent, ne_eq, not_false_eq_true, and_self, ↓reduceIte, Option.some.injEq] at hv
      exact ⟨_, hv.symm, hagent, jsTrim_jsTrim _, isLine_jsTrim form.userAgent_line⟩
  · intro v hv
    rw [get_mergedFields] at hv
    by_cases hrows : headersOf form.rows = []
    · simp [hrows, hplain.1] at hv
    · simp [hrows] at hv
      exact ⟨_, hv.symm, hrows, keptHeaders_headersOf form.rows⟩

/-- The fields are made again from the rest, the headers and the user agent. -/
theorem sameFields_mergedFields {fields rest : List (String × Value)}
    {rows : List (String × String)} {agent : String} (hrest : SameFields (restOf fields) rest)
    (hagent : get fields "user_agent" =
      if jsTrim agent = "" then none else some (.string (jsTrim agent)))
    (hheaders : get fields "headers" =
      if headersOf rows = [] then none else some (.object (headersOf rows))) :
    SameFields fields (mergedFields rest rows agent) := by
  refine sameFields_iff.mpr fun name => ?_
  have hother := sameFields_iff.mp hrest name
  rw [get_restOf] at hother
  rw [get_mergedFields]
  generalize jsTrim agent = text at hagent ⊢
  generalize headersOf rows = hs at hheaders ⊢
  have huser : "headers" ≠ "user_agent" := by decide
  by_cases hname : name = "user_agent"
  · have hget : JsonPath.get fields name = if text = "" then none else some (.string text) := by
      rw [hname]
      exact hagent
    rw [if_pos (.inr hname)] at hother
    rw [hget]
    by_cases hempty : text = ""
    · rw [if_pos hempty, if_neg fun h => h.2 hempty,
        if_neg fun h => huser (h.1.symm.trans hname)]
      exact hother
    · have hboth : name = "user_agent" ∧ text ≠ "" := ⟨hname, hempty⟩
      rw [if_neg hempty, if_pos hboth]
      exact .some .string
  · rw [if_neg fun h => hname h.1]
    by_cases hname' : name = "headers"
    · have hget : JsonPath.get fields name = if hs = [] then none else some (.object hs) := by
        rw [hname']
        exact hheaders
      rw [if_pos (.inl hname')] at hother
      rw [hget]
      by_cases hempty : hs = []
      · rw [if_pos hempty, if_neg fun h => h.2 hempty]
        exact hother
      · have hboth : name = "headers" ∧ hs ≠ [] := ⟨hname', hempty⟩
        rw [if_neg hempty, if_pos hboth]
        exact .some (.refl _)
    · rw [if_neg (not_or.mpr ⟨hname', hname⟩)] at hother
      rw [if_neg fun h => hname' h.1]
      exact hother

/-- The user agent that is shown is the one that was kept. -/
theorem KeptConfig.shown_userAgent (hagrees : browser.Agrees fromStr)
    {fields : List (String × Value)} (hkept : KeptConfig fields) {agent : String}
    (hshown : agent = inputValue (((get fields "user_agent").map browser.textOrEmpty).getD "")) :
    get fields "user_agent" =
      if jsTrim agent = "" then none else some (.string (jsTrim agent)) := by
  subst hshown
  cases hget : get fields "user_agent" with
  | none =>
      have hempty : jsTrim (inputValue "") = "" := by decide
      rw [Option.map_none, Option.getD_none, if_pos hempty]
  | some v =>
      obtain ⟨text, rfl, hne, htrim, hline⟩ := hkept.userAgent v hget
      have hshown : jsTrim (inputValue (browser.textOrEmpty (.string text))) = text := by
        rw [hagrees.textOrEmpty, inputValue_of_isLine hline, htrim]
      rw [Option.map_some, Option.getD_some, hshown, if_neg hne]

/-- So are the headers. -/
theorem KeptConfig.shown_headers (hagrees : browser.Agrees fromStr)
    {fields : List (String × Value)} (hkept : KeptConfig fields) :
    get fields "headers" =
      if headersOf (headerRowsOf browser fields) = [] then none
      else some (.object (headersOf (headerRowsOf browser fields))) := by
  rw [headerRowsOf]
  cases hget : get fields "headers" with
  | none => rfl
  | some v =>
      obtain ⟨hs, rfl, hne, hkept⟩ := hkept.headers v hget
      show _ = if headersOf (hs.map fun h => (h.1, browser.textOf h.2)) = [] then none
        else some (Value.object (headersOf (hs.map fun h => (h.1, browser.textOf h.2))))
      rw [headersOf_kept hagrees.textOf hkept, if_neg hne]

/-- **A kept configuration is shown and put together again.** -/
theorem mergedConfig_showFeedForm (hagrees : browser.Agrees fromStr) {row : StampedExternalSource}
    {raw : String} (hconfig : row.parserConfigJson = some raw) {fields : List (String × Value)}
    (hread : fromStr raw = .ok (.object fields)) (hkept : KeptConfig fields) :
    ∃ merged, (showFeedForm browser row).mergedConfig browser = some merged ∧
      SameFields fields merged := by
  have hne : raw ≠ "" := by
    rintro rfl
    exact hagrees.empty _ hread
  obtain ⟨v, hparse, hsame⟩ := hagrees.parse_read hread
  obtain ⟨fields', rfl⟩ : ∃ fields', v = .object fields' := by
    cases hsame
    exact ⟨_, rfl⟩
  have hkept' := hkept.of_sameFields hsame (hagrees.distinct_parse hparse)
  have hsplit : splitParserConfig browser row.parserConfigJson =
      { headerRows := headerRowsOf browser fields'
        userAgent := ((get fields' "user_agent").map browser.textOrEmpty).getD ""
        rest :=
          if restOf fields' = [] then ""
          else browser.stringifyIndented (.object (restOf fields')) } := by
    rw [hconfig, splitParserConfig]
    simp only [hne, ↓reduceIte, hparse]
  -- the rest reads as it was
  obtain ⟨rest, hrest, hspread⟩ : ∃ rest,
      (if (if restOf fields' = [] then ""
          else browser.stringifyIndented (.object (restOf fields'))) = "" then some (.object [])
        else browser.parse (if restOf fields' = [] then ""
          else browser.stringifyIndented (.object (restOf fields')))) = some rest ∧
        SameFields (restOf fields') (browser.spread rest) := by
    by_cases hempty : restOf fields' = []
    · refine ⟨.object [], by simp [hempty], ?_⟩
      show SameFields (restOf fields') []
      rw [hempty]
      exact sameFields_nil.mpr rfl
    · obtain ⟨v, hv, hprinted⟩ := hagrees.parse_printed hread hsame
      obtain ⟨fields'', rfl⟩ : ∃ fields'', v = .object fields'' := by
        cases hv
        exact ⟨_, rfl⟩
      refine ⟨_, by rw [if_neg hempty, if_neg (hagrees.printed_ne _)]; exact hprinted, ?_⟩
      exact hv
  refine ⟨mergedFields (browser.spread rest) (headerRowsOf browser fields')
    (inputValue (((get fields' "user_agent").map browser.textOrEmpty).getD "")), ?_, ?_⟩
  · rw [FeedForm.mergedConfig, buildMergedParserConfig]
    show Option.map _ (if (splitParserConfig browser row.parserConfigJson).rest = "" then _
      else browser.parse (splitParserConfig browser row.parserConfigJson).rest) = _
    rw [hsplit, hrest]
    show some (mergedFields _ (splitParserConfig browser row.parserConfigJson).headerRows
      (inputValue (splitParserConfig browser row.parserConfigJson).userAgent)) = _
    rw [hsplit]
  · exact hsame.trans (sameFields_mergedFields hspread (hkept'.shown_userAgent hagrees rfl)
      (hkept'.shown_headers hagrees))

/-- A feed as the form writes it. -/
structure KeptFeed (fromStr : String → Except String Value) (row : StampedExternalSource) :
    Prop where
  name : IsLine row.name
  sourceUrl : IsLine row.sourceUrl
  parserType : row.parserType ∈ ["REGEX_LINE", "JSON_PATH"]
  days : ∀ days ∈ row.maxAgeDays, -2 ^ 31 ≤ days ∧ days < 2 ^ 31
  config : ∀ raw, row.parserConfigJson = some raw →
    ∃ fields, fromStr raw = .ok (.object fields) ∧ KeptConfig fields

/-- A feed that was created by a form and since saved by forms, any number of times. -/
inductive FromForms (browser : Browser) (fromStr : String → Except String Value) :
    StampedExternalSource → Prop
  | created {form : FeedForm} {payload : CreateFeedPayload} (env : Api.Env) (groupId : Uuid)
      (hplain : form.Plain browser) (hunderstood : form.Understood browser fromStr)
      (hcreated : form.created browser = some payload) :
      FromForms browser fromStr (env.newExternalSource groupId payload)
  | saved {row : StampedExternalSource} {form : FeedForm} {payload : UpdateFeedPayload} (now : ℤ)
      (hrow : FromForms browser fromStr row) (hplain : form.Plain browser)
      (hunderstood : form.Understood browser fromStr) (hsaved : form.saved browser = some payload) :
      FromForms browser fromStr (payload.apply now row)

/-- The configuration that a form submits. -/
theorem FeedForm.kept_configText {form : FeedForm} (hplain : form.Plain browser)
    (hunderstood : form.Understood browser fromStr)
    {merged : List (String × Value)} (hmerged : form.mergedConfig browser = some merged)
    {raw : String} (hraw : FeedForm.configText browser merged = some raw) :
    ∃ fields, fromStr raw = .ok (.object fields) ∧ KeptConfig fields := by
  rw [FeedForm.configText] at hraw
  split at hraw
  · cases hraw
  · rename_i hne
    obtain rfl := Option.some.inj hraw
    obtain ⟨fields, hread, hsame, hdistinct⟩ := hunderstood merged hmerged hne
    exact ⟨fields, hread, (hplain.kept hmerged).of_sameFields hsame hdistinct⟩

/-- **Any number of saves** by forms. -/
theorem FromForms.kept {row : StampedExternalSource} (h : FromForms browser fromStr row) :
    KeptFeed fromStr row := by
  induction h with
  | @created form payload env groupId hplain hunderstood hcreated =>
      obtain ⟨hfit, merged, hmerged, rfl⟩ := FeedForm.created_eq_some browser hcreated
      exact ⟨form.name_line, form.sourceUrl_line, form.parserType_listed, hfit,
        fun raw hraw => FeedForm.kept_configText hplain hunderstood hmerged hraw⟩
  | @saved row form payload now _ hplain hunderstood hsaved ih =>
      obtain ⟨hfit, merged, hmerged, rfl⟩ := FeedForm.saved_eq_some browser hsaved
      refine ⟨form.name_line, form.sourceUrl_line, form.parserType_listed, fun days hdays => ?_,
        fun raw hraw => ?_⟩
      · rcases Option.or_eq_some_iff.mp hdays with hsent | ⟨-, hstored⟩
        · exact hfit days hsent
        · exact ih.days days hstored
      · rcases Option.or_eq_some_iff.mp hraw with hsent | ⟨-, hstored⟩
        · exact FeedForm.kept_configText hplain hunderstood hmerged hsent
        · exact ih.config raw hstored

/-- Fetched with the same options from the same place, and parsed in the same way. -/
structure FetchedAlike (fromStr : String → Except String Value)
    (row row' : StampedExternalSource) : Prop where
  name : row'.name = row.name
  sourceUrl : row'.sourceUrl = row.sourceUrl
  parserType : row'.parserType = row.parserType
  maxAgeDays : row'.maxAgeDays = row.maxAgeDays
  skipBogonFiltering : row'.skipBogonFiltering = row.skipBogonFiltering
  options : SendsSame (FetchOptions.fromConfig fromStr row.parserConfigJson)
    (FetchOptions.fromConfig fromStr row'.parserConfigJson)
  parser : row'.parserConfigJson.map (JsonPathConfig.parse fromStr) =
    row.parserConfigJson.map (JsonPathConfig.parse fromStr)

/-- The age limit that is shown is read again. -/
theorem days_showFeedForm (browser : Browser) (row : StampedExternalSource) :
    (showFeedForm browser row).days = row.maxAgeDays := by
  show (if (row.maxAgeDays.map toString).getD "" = "" then none
    else parseInt ((row.maxAgeDays.map toString).getD "")) = _
  cases row.maxAgeDays with
  | none => rfl
  | some days =>
      have hne : toString days ≠ "" := by
        intro hempty
        have hread := parseInt_toString days
        rw [hempty] at hread
        cases hread
      rw [Option.map_some, Option.getD_some, if_neg hne, parseInt_toString]

/-- What is submitted of a form that was opened and left as it is. -/
theorem KeptFeed.saved_alike {row : StampedExternalSource} (h : KeptFeed fromStr row)
    (hagrees : browser.Agrees fromStr) : ∃ payload,
      (showFeedForm browser row).saved browser = some payload ∧
        ∀ now, FetchedAlike fromStr row (payload.apply now row) := by
  have hsame : ∀ options, SendsSame options options := fun options => ⟨rfl, fun _ => Iff.rfl⟩
  have htype : (if row.parserType = "JSON_PATH" then "JSON_PATH" else "REGEX_LINE") =
      row.parserType := by
    have hlisted := h.parserType
    simp only [List.mem_cons, List.not_mem_nil, or_false] at hlisted
    rcases hlisted with hregex | hjson
    · rw [hregex, if_neg (by decide)]
    · rw [hjson, if_pos rfl]
  have hage : (showFeedForm browser row).days.or row.maxAgeDays = row.maxAgeDays := by
    rw [days_showFeedForm, Option.or_self]
  have hfit : (showFeedForm browser row).DaysFit := by
    rw [FeedForm.DaysFit, days_showFeedForm]
    exact h.days
  have hskip : row.skipBogonFiltering.or row.skipBogonFiltering = row.skipBogonFiltering :=
    Option.or_self
  have hbuild : ∀ merged, (showFeedForm browser row).mergedConfig browser = some merged →
      ∃ payload, (showFeedForm browser row).saved browser = some payload ∧
        (SendsSame (FetchOptions.fromConfig fromStr row.parserConfigJson)
            (FetchOptions.fromConfig fromStr
              ((FeedForm.configText browser merged).or row.parserConfigJson)) →
          ((FeedForm.configText browser merged).or row.parserConfigJson).map
              (JsonPathConfig.parse fromStr) =
            row.parserConfigJson.map (JsonPathConfig.parse fromStr) →
          ∀ now, FetchedAlike fromStr row (payload.apply now row)) := by
    intro merged hmerged
    refine ⟨_, by rw [FeedForm.saved, if_pos hfit, hmerged]; rfl, fun hoptions hparser now => ?_⟩
    exact ⟨inputValue_of_isLine h.name, inputValue_of_isLine h.sourceUrl, htype, hage, hskip,
      hoptions, hparser⟩
  cases hconfig : row.parserConfigJson with
  | none =>
      have hmerged : (showFeedForm browser row).mergedConfig browser = some [] := by
        have hshown : jsTrim (inputValue "") = "" := by decide
        simp only [FeedForm.mergedConfig, showFeedForm, hconfig, splitParserConfig,
          buildMergedParserConfig, ↓reduceIte, Option.map_some, Browser.spread, mergedFields,
          hshown, headersOf, List.foldl_nil]
      obtain ⟨payload, hsaved, halike⟩ := hbuild [] hmerged
      rw [hconfig] at halike
      exact ⟨payload, hsaved, halike (hsame _) rfl⟩
  | some raw =>
      obtain ⟨fields, hread, hkept⟩ := h.config raw hconfig
      obtain ⟨merged, hmerged, hfields⟩ := mergedConfig_showFeedForm hagrees hconfig hread hkept
      obtain ⟨payload, hsaved, halike⟩ := hbuild merged hmerged
      refine ⟨payload, hsaved, ?_⟩
      rw [hconfig] at halike
      by_cases hempty : merged = []
      · rw [hempty] at halike
        exact halike (hsame _) rfl
      · obtain ⟨w, hw, hsamew⟩ := hagrees.read_printed hread hfields
        obtain ⟨fields', rfl⟩ : ∃ fields', w = .object fields' := by
          cases hsamew
          exact ⟨_, rfl⟩
        rw [FeedForm.configText, if_neg hempty, Option.some_or, fromConfig_eq, fromConfig_eq,
          readConfig_of_read hread, readConfig_of_read hw] at halike
        have hall := hfields.trans hsamew
        exact halike
          (sendsSame_of_sameFields hall (hagrees.distinct hread) (hagrees.distinct hw))
          (congrArg some (parse_congr hw hread hall.symm))

/-- **A form that is opened and saved again changes nothing.**  A feed that was created and since
saved by forms, any number of times, is fetched and parsed after a further answered save as before,
if that form was opened and left as it is. -/
theorem saved_again_alike {row : StampedExternalSource} (hagrees : browser.Agrees fromStr)
    (hforms : FromForms browser fromStr row) :
    ∃ payload, (showFeedForm browser row).saved browser = some payload ∧
      ∀ (fuel : ℕ) (env : Api.Env) (caller : ApiKey) (db s : Database)
        (fault : Option (Fault Sql)) (groupId feedId : Uuid),
          db.externalSources.find? feedId = some row →
          AnsweredIn (handle fuel env caller (.updateFeed groupId feedId payload)) fault db s →
            ∃ row', s.externalSources.find? feedId = some row' ∧
              FetchedAlike fromStr row row' := by
  obtain ⟨payload, hsaved, halike⟩ := hforms.kept.saved_alike hagrees
  refine ⟨payload, hsaved, fun fuel env caller db s fault groupId feedId hrow h => ?_⟩
  obtain ⟨row', hfound, hrow'⟩ := find?_of_answered h
  obtain rfl := Option.some.inj (hrow.symm.trans hfound)
  exact ⟨_, hrow', halike env.now⟩

end Again

/-! ### A feed with a key -/

theorem readKeyText_eq_ok {raw : String} {v : Value} (h : readKeyText raw = .ok v) :
    raw = keyText ∧ v = .object keyFields := by
  rw [readKeyText] at h
  split at h
  · rename_i hraw
    exact ⟨hraw, (Except.ok.inj h).symm⟩
  · cases h

theorem parse_keyText : keyBrowser.parse keyText = some (.object keyFields) := by
  show parseKeyText keyText = _
  rw [parseKeyText, if_pos rfl]

theorem parse_empty : keyBrowser.parse "\x7b\x7d" = some (.object []) := by
  show parseKeyText "\x7b\x7d" = _
  rw [parseKeyText, if_neg (by decide), if_pos rfl]

theorem get_keyFields_of_ne {name : String} (hname : name ≠ "headers") :
    get keyFields name = none := by
  rw [keyFields, get_cons, if_neg fun h => hname h.symm]
  rfl

theorem keyBrowser_agrees : keyBrowser.Agrees readKeyText where
  parse_read := by
    intro raw v h
    obtain ⟨rfl, rfl⟩ := readKeyText_eq_ok h
    exact ⟨.object keyFields, parse_keyText, .refl _⟩
  parse_printed := by
    intro raw fields fields' h hsame
    obtain ⟨rfl, hv⟩ := readKeyText_eq_ok h
    obtain rfl := Value.object.inj hv
    refine ⟨.object [], sameFields_iff.mpr fun name => ?_, ?_⟩
    · rw [get_restOf]
      split
      · exact .none
      · rename_i hname
        rw [hsame.get_eq_none (get_keyFields_of_ne fun h => hname (.inl h))]
        exact .none
    · exact parse_empty
  read_printed := by
    intro raw v v' h hsame
    obtain ⟨-, rfl⟩ := readKeyText_eq_ok h
    exact ⟨_, if_pos rfl, hsame.symm⟩
  distinct := by
    intro raw fields h
    obtain ⟨-, hv⟩ := readKeyText_eq_ok h
    obtain rfl := Value.object.inj hv
    exact distinct_keyFields
  distinct_parse := by
    intro raw fields h
    change parseKeyText raw = _ at h
    rw [parseKeyText] at h
    split at h
    · obtain rfl := Value.object.inj (Option.some.inj h)
      exact distinct_keyFields
    · split at h
      · obtain rfl := Value.object.inj (Option.some.inj h)
        exact ⟨List.nodup_nil, fun _ _ hget => by cases hget⟩
      · cases h
  empty := by
    intro v h
    exact absurd (readKeyText_eq_ok h).1 (by decide)
  printed_ne _ := by
    show "\x7b\x7d" ≠ ""
    decide
  textOf _ := rfl
  textOrEmpty _ := rfl

theorem isLine_key : IsLine "feed" ∧ IsLine "https://feed" ∧ IsLine "" := by
  decide +kernel

/-- The form of a new feed with this header. -/
def keyForm : FeedForm where
  name := "feed"
  sourceUrl := "https://feed"
  parserType := "REGEX_LINE"
  skipBogonFiltering := none
  userAgent := ""
  rows := [(" X-Key", "abc")]
  parserConfigJson := ""
  maxAgeDays := ""
  maxAgeDays_number := Or.inl rfl
  name_line := isLine_key.1
  sourceUrl_line := isLine_key.2.1
  userAgent_line := isLine_key.2.2
  parserType_listed := List.mem_cons_self

theorem mergedConfig_keyForm : keyForm.mergedConfig keyBrowser = some keyFields := by
  exact congrArg some (mergedFields_key (by decide))

/-- The feed comes from the form. -/
theorem fromForms_keyFeed : FromForms keyBrowser readKeyText keyFeed := by
  refine @FromForms.created keyBrowser readKeyText keyForm _ (Api.Env.plain 5) 4 ?_ ?_ ?_
  · intro v h
    rw [show keyForm.parserConfigJson = "" from rfl, parse_blank] at h
    cases h
  · intro merged hmerged _
    obtain rfl := Option.some.inj (mergedConfig_keyForm.symm.trans hmerged)
    exact ⟨keyFields, if_pos rfl, .refl _, distinct_keyFields⟩
  · rw [FeedForm.created, if_pos (by decide), mergedConfig_keyForm]
    rfl

/-- The feed is opened and saved again. -/
theorem saved_again_alike_of_key :
    ∃ payload db s row', (showFeedForm keyBrowser keyFeed).saved keyBrowser = some payload ∧
      keyDb = some db ∧ AnsweredIn (keySave payload) none db s ∧
      s.externalSources.find? 5 = some row' ∧ FetchedAlike readKeyText keyFeed row' := by
  obtain ⟨payload, hsaved, halike⟩ := saved_again_alike keyBrowser_agrees fromForms_keyFeed
  have hpayload : (showFeedForm keyBrowser keyFeed).saved keyBrowser =
      some ⟨some "feed", some "https://feed", some "REGEX_LINE", some keyText, none, none⟩ := by
    decide +kernel
  obtain rfl := Option.some.inj (hsaved.symm.trans hpayload)
  have hfacts : (keyDb.map fun db => decide (db.externalSources.find? 5 = some keyFeed ∧
      (Prog.run .dbError (keySave ⟨some "feed", some "https://feed", some "REGEX_LINE",
        some keyText, none, none⟩) none db).1 = .answered (.feed keyFeed))) = some true := by
    decide +kernel
  obtain ⟨db, hdb, hboth⟩ := Option.map_eq_some_iff.mp hfacts
  obtain ⟨hrow, hreply⟩ := of_decide_eq_true hboth
  have hanswered : AnsweredIn (keySave _) none db _ := ⟨_, hreply, rfl⟩
  obtain ⟨row', hrow', hfetched⟩ := halike _ _ _ db _ none 4 5 hrow hanswered
  exact ⟨_, db, _, row', hsaved, hdb, hanswered, hrow', hfetched⟩

end SimplyIpSync.Dashboard
