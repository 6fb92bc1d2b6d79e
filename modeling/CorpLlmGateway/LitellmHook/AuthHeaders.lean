import CorpLlmGateway.Sanitizer.Placeholder

/-!
# The corp token in request headers

The model of `_extract_auth_headers` and `_strip_corp_token_everywhere` in
`litellm_hook.py`. A request is a tree of dictionaries with string keys; `lower` is
`str.lower` and `str` turns a header value into its text. Authentication merges the header
copies of several buckets, later ones first by name without case; stripping walks a longer
list of buckets and drops the corp token from each.

* `headerBuckets_strip` — every bucket that is read is stripped;
* `corp_token_stripped` — what authentication reads after stripping, and what stripping
  leaves alone.
-/

namespace CorpLlmGateway.LitellmHook

open CorpLlmGateway.Sanitizer

/-! ## Requests -/

/-- A value of a request: a dictionary, or anything else. -/
inductive Value (α : Type) where
  | dict (entries : List (Text × Value α))
  | other (a : α)

/-- The entries of a dictionary. -/
abbrev Entries (α : Type) := List (Text × Value α)

variable {α : Type}

/-- `d.get(key)`. -/
def Entries.get? (d : Entries α) (key : String) : Option (Value α) := d.lookup key.toList

/-- Change the value of a key in place, if it is there. -/
def Entries.modify (d : Entries α) (key : String) (f : Value α → Value α) : Entries α :=
  d.map fun e => (e.1, if e.1 = key.toList then f e.2 else e.2)

/-- Change a value if it is a dictionary. -/
def Value.onDict (f : Entries α → Entries α) : Value α → Value α
  | .dict entries => .dict (f entries)
  | .other a => .other a

section Headers

variable (lower : Text → Text) (str : Value α → Text)

/-! ## Stripping -/

/-- `_CORP_AUTH_HEADER_LOWER`. -/
def corpAuthHeaderLower : Text := lower "X-Corp-Auth".toList

/-- The entries under other names. -/
def otherNames (d : Entries α) : Entries α := d.filter fun e => lower e.1 ≠ corpAuthHeaderLower lower

/-- `_drop_corp_token(headers)`. -/
def dropCorpToken : Value α → Value α := Value.onDict (otherNames lower)

/-- The body of the loop of `_drop_corp_token_from_metadata`. -/
def dropCorpTokenFromBucket (bucket : Entries α) : Entries α :=
  (bucket.modify "headers" (dropCorpToken lower)).modify "requester_metadata"
    (Value.onDict fun requester => requester.modify "headers" (dropCorpToken lower))

/-- `_drop_corp_token_from_metadata(holder)`. -/
def dropCorpTokenFromMetadata (holder : Entries α) : Entries α :=
  ["metadata", "litellm_metadata"].foldl (fun holder bucketKey =>
    holder.modify bucketKey (Value.onDict (dropCorpTokenFromBucket lower))) holder

/-- `_drop_corp_token_from_request(holder)`. -/
def dropCorpTokenFromRequest (holder : Entries α) : Entries α :=
  (dropCorpTokenFromMetadata lower holder).modify "proxy_server_request"
    (Value.onDict fun proxyRequest =>
      (proxyRequest.modify "headers" (dropCorpToken lower)).modify "body"
        (Value.onDict (dropCorpTokenFromMetadata lower)))

/-- `_strip_corp_token_everywhere(data)`. -/
def stripCorpTokenEverywhere (data : Entries α) : Entries α :=
  let data := data.modify "headers" (dropCorpToken lower)
  let data := dropCorpTokenFromRequest lower data
  let data := data.modify "litellm_params" (Value.onDict (dropCorpTokenFromRequest lower))
  data.modify "secret_fields" (Value.onDict fun secretFields =>
    secretFields.modify "raw_headers" (dropCorpToken lower))

/-! ## Reading -/

/-- The value of `key` in a dictionary, as a list: there is no bucket otherwise. -/
def bucketOf (key : String) : Option (Value α) → List (Option (Value α))
  | some (.dict d) => [Entries.get? d key]
  | _ => []

/-- The list `buckets` of `_extract_auth_headers`. -/
def headerBuckets (data : Entries α) : List (Option (Value α)) :=
  data.get? "headers" ::
    (["metadata", "litellm_metadata", "proxy_server_request"].flatMap fun key =>
      bucketOf "headers" (data.get? key)) ++
    (match data.get? "litellm_params" with
      | some (.dict litellmParams) =>
          bucketOf "headers" (Entries.get? litellmParams "metadata") ++
            bucketOf "headers" (Entries.get? litellmParams "proxy_server_request")
      | _ => []) ++
    bucketOf "raw_headers" (data.get? "secret_fields")

/-- The items of a bucket that is a dictionary. -/
def bucketItems : Option (Value α) → Entries α
  | some (.dict d) => d
  | _ => []

/-- `_extract_auth_headers(data)`: the last header of each name without case, under the name
and in the place it has there. -/
def extractAuthHeaders (data : Entries α) : Dict Text Text :=
  let merged : Dict Text (Text × Text) :=
    ((headerBuckets data).flatMap bucketItems).foldl
      (fun merged e => merged.insert (lower e.1) (e.1, str e.2)) .empty
  (merged.entries.map Prod.snd).foldl (fun d e => d.insert e.1 e.2) .empty

end Headers

/-! ## Buckets -/

section Buckets

variable {lower : Text → Text}

theorem get?_modify_self (d : Entries α) (key : String) (f : Value α → Value α) :
    (d.modify key f).get? key = (d.get? key).map f := by
  unfold Entries.modify Entries.get?
  induction d with
  | nil => rfl
  | cons e d ih =>
    rw [List.map_cons, List.lookup_cons, List.lookup_cons]
    by_cases hk : key.toList = e.1
    · simp [hk]
    · have hne : (key.toList == e.1) = false := by simpa using hk
      rw [hne]
      exact ih

theorem get?_modify_ne (d : Entries α) {key key' : String} (f : Value α → Value α)
    (h : key'.toList ≠ key.toList) : (d.modify key f).get? key' = d.get? key' := by
  unfold Entries.modify Entries.get?
  induction d with
  | nil => rfl
  | cons e d ih =>
    rw [List.map_cons, List.lookup_cons, List.lookup_cons, ih]
    by_cases hk : key'.toList = e.1
    · simp [← hk, h]
    · have hne : (key'.toList == e.1) = false := by simpa using hk
      rw [hne]

/-- A bucket of a dictionary that was changed. -/
theorem bucketOf_onDict {key : String} {f : Entries α → Entries α} {g : Value α → Value α}
    (h : ∀ d : Entries α, (f d).get? key = (d.get? key).map g) (v : Option (Value α)) :
    bucketOf key (v.map (Value.onDict f)) = (bucketOf key v).map (Option.map g) := by
  cases v with
  | none => rfl
  | some v =>
    cases v with
    | other a => rfl
    | dict d => exact congrArg (fun b => [b]) (h d)

theorem get?_headers_dropFromBucket (bucket : Entries α) :
    (dropCorpTokenFromBucket lower bucket).get? "headers" =
      (bucket.get? "headers").map (dropCorpToken lower) := by
  rw [dropCorpTokenFromBucket, get?_modify_ne _ _ (by decide), get?_modify_self]

theorem get?_dropFromMetadata_ne (holder : Entries α) {key : String}
    (h : key.toList ≠ "metadata".toList) (h' : key.toList ≠ "litellm_metadata".toList) :
    (dropCorpTokenFromMetadata lower holder).get? key = holder.get? key := by
  simp only [dropCorpTokenFromMetadata, List.foldl_cons, List.foldl_nil]
  rw [get?_modify_ne _ _ h', get?_modify_ne _ _ h]

theorem get?_dropFromMetadata (holder : Entries α) {key : String}
    (h : key = "metadata" ∨ key = "litellm_metadata") :
    (dropCorpTokenFromMetadata lower holder).get? key =
      (holder.get? key).map (Value.onDict (dropCorpTokenFromBucket lower)) := by
  simp only [dropCorpTokenFromMetadata, List.foldl_cons, List.foldl_nil]
  rcases h with rfl | rfl
  · rw [get?_modify_ne _ _ (by decide), get?_modify_self]
  · rw [get?_modify_self, get?_modify_ne _ _ (by decide)]

/-- The headers in the metadata buckets of a request and in its `proxy_server_request`. -/
theorem bucketOf_dropFromRequest (holder : Entries α) {key : String}
    (h : key ∈ ["metadata", "litellm_metadata", "proxy_server_request"]) :
    bucketOf "headers" ((dropCorpTokenFromRequest lower holder).get? key) =
      (bucketOf "headers" (holder.get? key)).map (Option.map (dropCorpToken lower)) := by
  unfold dropCorpTokenFromRequest
  simp only [List.mem_cons, List.not_mem_nil, or_false] at h
  rcases h with rfl | rfl | rfl
  · rw [get?_modify_ne _ _ (by decide), get?_dropFromMetadata _ (Or.inl rfl)]
    exact bucketOf_onDict get?_headers_dropFromBucket _
  · rw [get?_modify_ne _ _ (by decide), get?_dropFromMetadata _ (Or.inr rfl)]
    exact bucketOf_onDict get?_headers_dropFromBucket _
  · rw [get?_modify_self, get?_dropFromMetadata_ne _ (by decide) (by decide)]
    refine bucketOf_onDict ?_ _
    intro proxyRequest
    rw [get?_modify_ne _ _ (by decide), get?_modify_self]

theorem get?_dropFromRequest_ne (holder : Entries α) {key : String}
    (h : key.toList ∉ ["metadata".toList, "litellm_metadata".toList,
      "proxy_server_request".toList]) :
    (dropCorpTokenFromRequest lower holder).get? key = holder.get? key := by
  simp only [List.mem_cons, List.not_mem_nil, or_false, not_or] at h
  rw [dropCorpTokenFromRequest, get?_modify_ne _ _ h.2.2, get?_dropFromMetadata_ne _ h.1 h.2.1]

/-- **Every bucket that authentication reads is stripped.** -/
theorem headerBuckets_strip (data : Entries α) :
    headerBuckets (stripCorpTokenEverywhere lower data) =
      (headerBuckets data).map (Option.map (dropCorpToken lower)) := by
  have hheaders : (stripCorpTokenEverywhere lower data).get? "headers" =
      (data.get? "headers").map (dropCorpToken lower) := by
    rw [stripCorpTokenEverywhere, get?_modify_ne _ _ (by decide), get?_modify_ne _ _ (by decide),
      get?_dropFromRequest_ne _ (by decide), get?_modify_self]
  have hbucket : ∀ key ∈ ["metadata", "litellm_metadata", "proxy_server_request"],
      bucketOf "headers" ((stripCorpTokenEverywhere lower data).get? key) =
        (bucketOf "headers" (data.get? key)).map (Option.map (dropCorpToken lower)) := by
    intro key hkey
    have hne : ∀ key ∈ ["metadata", "litellm_metadata", "proxy_server_request"],
        key.toList ≠ "secret_fields".toList ∧ key.toList ≠ "litellm_params".toList ∧
          key.toList ≠ "headers".toList := by
      decide
    obtain ⟨h₁, h₂, h₃⟩ := hne key hkey
    rw [stripCorpTokenEverywhere, get?_modify_ne _ _ h₁, get?_modify_ne _ _ h₂,
      bucketOf_dropFromRequest _ hkey, get?_modify_ne _ _ h₃]
  have hparams : (stripCorpTokenEverywhere lower data).get? "litellm_params" =
      (data.get? "litellm_params").map (Value.onDict (dropCorpTokenFromRequest lower)) := by
    rw [stripCorpTokenEverywhere, get?_modify_ne _ _ (by decide), get?_modify_self,
      get?_dropFromRequest_ne _ (by decide), get?_modify_ne _ _ (by decide)]
  have hsecret : bucketOf "raw_headers" ((stripCorpTokenEverywhere lower data).get? "secret_fields") =
      (bucketOf "raw_headers" (data.get? "secret_fields")).map
        (Option.map (dropCorpToken lower)) := by
    rw [stripCorpTokenEverywhere, get?_modify_self, get?_modify_ne _ _ (by decide),
      get?_dropFromRequest_ne _ (by decide), get?_modify_ne _ _ (by decide)]
    exact bucketOf_onDict (fun d => get?_modify_self d _ _) _
  have hmiddle : ∀ litellmParams : Entries α,
      bucketOf "headers" ((dropCorpTokenFromRequest lower litellmParams).get? "metadata") ++
        bucketOf "headers"
          ((dropCorpTokenFromRequest lower litellmParams).get? "proxy_server_request") =
      (bucketOf "headers" (litellmParams.get? "metadata") ++
        bucketOf "headers" (litellmParams.get? "proxy_server_request")).map
          (Option.map (dropCorpToken lower)) := by
    intro litellmParams
    rw [bucketOf_dropFromRequest _ (by decide), bucketOf_dropFromRequest _ (by decide),
      List.map_append]
  unfold headerBuckets
  rw [hheaders, hparams, hsecret]
  simp only [List.flatMap_cons, List.flatMap_nil, List.append_nil, List.map_append, List.map_cons]
  rw [hbucket _ (by decide), hbucket _ (by decide), hbucket _ (by decide)]
  cases data.get? "litellm_params" with
  | none => rfl
  | some v =>
    cases v with
    | other a => rfl
    | dict litellmParams =>
      simp only [Option.map_some, Value.onDict, hmiddle, List.map_append]

end Buckets

/-! ## What authentication reads -/

section Merge

variable {lower : Text → Text} {str : Value α → Text}

theorem bucketItems_drop (b : Option (Value α)) :
    bucketItems (b.map (dropCorpToken lower)) = otherNames lower (bucketItems b) := by
  cases b with
  | none => rfl
  | some v => cases v <;> rfl

/-- The items that are merged after stripping. -/
theorem items_strip (data : Entries α) :
    (headerBuckets (stripCorpTokenEverywhere lower data)).flatMap bucketItems =
      otherNames lower ((headerBuckets data).flatMap bucketItems) := by
  rw [headerBuckets_strip, List.flatMap_map]
  unfold otherNames
  rw [List.filter_flatMap]
  exact List.flatMap_congr fun b _ => bucketItems_drop b

/-- The dictionary `merged`. -/
def mergedHeaders (lower : Text → Text) (str : Value α → Text) (items : Entries α) :
    Dict Text (Text × Text) :=
  (items.map fun e => (lower e.1, (e.1, str e.2))).foldl (fun d e => d.insert e.1 e.2) .empty

theorem extractAuthHeaders_eq (data : Entries α) :
    extractAuthHeaders lower str data =
      ((mergedHeaders lower str ((headerBuckets data).flatMap bucketItems)).entries.map
        Prod.snd).foldl (fun d e => d.insert e.1 e.2) .empty := by
  simp only [extractAuthHeaders, mergedHeaders, List.foldl_map]

/-- A header is stored under its own name without case. -/
theorem mergedHeaders_key (items : Entries α) :
    ∀ e ∈ (mergedHeaders lower str items).entries, e.1 = lower e.2.1 := by
  have hfold : ∀ (l : List (Text × Text × Text)) (d : Dict Text (Text × Text)),
      (∀ e ∈ l, e.1 = lower e.2.1) → (∀ k v, d.get? k = some v → k = lower v.1) →
      ∀ k v, (l.foldl (fun d e => d.insert e.1 e.2) d).get? k = some v → k = lower v.1 := by
    intro l
    induction l with
    | nil => exact fun d _ hd => hd
    | cons e l ih =>
      intro d hl hd
      rw [List.forall_mem_cons] at hl
      refine ih _ hl.2 ?_
      intro k v hget
      rw [Dict.get?_insert] at hget
      by_cases hk : k = e.1
      · rw [if_pos (by simpa using hk)] at hget
        rw [← Option.some.inj hget, hk]
        exact hl.1
      · rw [if_neg (by simpa using hk)] at hget
        exact hd k v hget
  intro e he
  refine hfold (items.map fun e => (lower e.1, (e.1, str e.2))) .empty ?_ nofun e.1 e.2
    (Dict.mem_entries.mp he)
  intro x hx
  obtain ⟨item, -, rfl⟩ := List.mem_map.mp hx
  rfl

theorem mergedHeaders_otherNames (items : Entries α) :
    (mergedHeaders lower str (otherNames lower items)).entries =
      (mergedHeaders lower str items).entries.filter fun e =>
        decide (e.1 ≠ corpAuthHeaderLower lower) := by
  unfold mergedHeaders otherNames
  have hmap : ((items.filter fun e => decide (lower e.1 ≠ corpAuthHeaderLower lower)).map
      fun e => (lower e.1, (e.1, str e.2))) =
      (items.map fun e => (lower e.1, (e.1, str e.2))).filter fun e =>
        decide (e.1 ≠ corpAuthHeaderLower lower) := by
    rw [List.filter_map]
    rfl
  rw [hmap]
  exact Dict.filter_entries_foldl_insert (P := fun k => decide (k ≠ corpAuthHeaderLower lower)) _ rfl

/-- Stripping takes the corp token out of what authentication reads, and nothing else. -/
theorem extractAuthHeaders_strip (data : Entries α) :
    (extractAuthHeaders lower str (stripCorpTokenEverywhere lower data)).entries =
      (extractAuthHeaders lower str data).entries.filter fun e =>
        decide (lower e.1 ≠ corpAuthHeaderLower lower) := by
  rw [extractAuthHeaders_eq, extractAuthHeaders_eq, items_strip, mergedHeaders_otherNames]
  have hvalues : (((mergedHeaders lower str ((headerBuckets data).flatMap bucketItems)).entries.filter
        fun e => decide (e.1 ≠ corpAuthHeaderLower lower)).map Prod.snd) =
      ((mergedHeaders lower str ((headerBuckets data).flatMap bucketItems)).entries.map
        Prod.snd).filter fun e => decide (lower e.1 ≠ corpAuthHeaderLower lower) := by
    rw [List.filter_map]
    congr 1
    refine List.filter_congr fun e he => ?_
    simp only [Function.comp_apply, mergedHeaders_key _ e he]
  rw [hvalues]
  exact Dict.filter_entries_foldl_insert
    (P := fun k => decide (lower k ≠ corpAuthHeaderLower lower)) _ rfl

end Merge

/-! ## What stripping leaves alone -/

mutual

/-- The second value is the first one without some entries of the corp token. -/
inductive Pruned (lower : Text → Text) : Value α → Value α → Prop
  | other (a : α) : Pruned lower (.other a) (.other a)
  | dict {d d' : List (Text × Value α)} : PrunedEntries lower d d' →
      Pruned lower (.dict d) (.dict d')

/-- The same for the entries of a dictionary. -/
inductive PrunedEntries (lower : Text → Text) :
    List (Text × Value α) → List (Text × Value α) → Prop
  | nil : PrunedEntries lower [] []
  | keep {k : Text} {v v' : Value α} {d d' : List (Text × Value α)} : Pruned lower v v' →
      PrunedEntries lower d d' → PrunedEntries lower ((k, v) :: d) ((k, v') :: d')
  | drop {k : Text} {v : Value α} {d d' : List (Text × Value α)} :
      lower k = corpAuthHeaderLower lower → PrunedEntries lower d d' →
      PrunedEntries lower ((k, v) :: d) d'

end

section Frame

variable {lower : Text → Text}

mutual

theorem Pruned.refl : (v : Value α) → Pruned lower v v
  | .other a => .other a
  | .dict d => .dict (PrunedEntries.refl d)

theorem PrunedEntries.refl : (d : List (Text × Value α)) → PrunedEntries lower d d
  | [] => .nil
  | (_, v) :: d => .keep (Pruned.refl v) (PrunedEntries.refl d)

end

mutual

theorem Pruned.trans : {v v' v'' : Value α} → Pruned lower v v' → Pruned lower v' v'' →
    Pruned lower v v''
  | _, _, _, .other a, .other _ => .other a
  | _, _, _, .dict h, .dict h' => .dict (h.trans h')

theorem PrunedEntries.trans : {d d' d'' : List (Text × Value α)} → PrunedEntries lower d d' →
    PrunedEntries lower d' d'' → PrunedEntries lower d d''
  | _, _, _, .nil, .nil => .nil
  | _, _, _, .keep hv h, .keep hv' h' => .keep (hv.trans hv') (h.trans h')
  | _, _, _, .keep _ h, .drop hk h' => .drop hk (h.trans h')
  | _, _, _, .drop hk h, h' => .drop hk (h.trans h')

end

theorem prunedEntries_otherNames (d : Entries α) : PrunedEntries lower d (otherNames lower d) := by
  induction d with
  | nil => exact .nil
  | cons e d ih =>
    unfold otherNames
    by_cases hk : lower e.1 = corpAuthHeaderLower lower
    · rw [List.filter_cons_of_neg (by simpa using hk)]
      exact .drop hk ih
    · rw [List.filter_cons_of_pos (by simpa using hk)]
      exact .keep (.refl _) ih

theorem prunedEntries_modify (d : Entries α) (key : String) {f : Value α → Value α}
    (hf : ∀ v, Pruned lower v (f v)) : PrunedEntries lower d (d.modify key f) := by
  induction d with
  | nil => exact .nil
  | cons e d ih =>
    refine .keep ?_ ih
    split
    · exact hf e.2
    · exact .refl e.2

theorem pruned_onDict {f : Entries α → Entries α} (hf : ∀ d, PrunedEntries lower d (f d))
    (v : Value α) : Pruned lower v (Value.onDict f v) := by
  cases v with
  | other a => exact .other a
  | dict d => exact .dict (hf d)

theorem pruned_dropCorpToken (v : Value α) : Pruned lower v (dropCorpToken lower v) :=
  pruned_onDict prunedEntries_otherNames v

theorem prunedEntries_dropFromMetadata (holder : Entries α) :
    PrunedEntries lower holder (dropCorpTokenFromMetadata lower holder) := by
  have hbucket : ∀ v : Value α, Pruned lower v (Value.onDict (dropCorpTokenFromBucket lower) v) := by
    refine pruned_onDict fun bucket => ?_
    refine (prunedEntries_modify _ "headers" pruned_dropCorpToken).trans ?_
    exact prunedEntries_modify _ _ (pruned_onDict fun requester =>
      prunedEntries_modify _ _ pruned_dropCorpToken)
  exact (prunedEntries_modify _ "metadata" hbucket).trans (prunedEntries_modify _ _ hbucket)

theorem prunedEntries_dropFromRequest (holder : Entries α) :
    PrunedEntries lower holder (dropCorpTokenFromRequest lower holder) := by
  refine (prunedEntries_dropFromMetadata holder).trans ?_
  refine prunedEntries_modify _ _ (pruned_onDict fun proxyRequest => ?_)
  refine (prunedEntries_modify _ "headers" pruned_dropCorpToken).trans ?_
  exact prunedEntries_modify _ _ (pruned_onDict prunedEntries_dropFromMetadata)

theorem prunedEntries_strip (data : Entries α) :
    PrunedEntries lower data (stripCorpTokenEverywhere lower data) := by
  refine (prunedEntries_modify _ "headers" pruned_dropCorpToken).trans ?_
  refine (prunedEntries_dropFromRequest _).trans ?_
  refine (prunedEntries_modify _ "litellm_params"
    (pruned_onDict prunedEntries_dropFromRequest)).trans ?_
  exact prunedEntries_modify _ _ (pruned_onDict fun secretFields =>
    prunedEntries_modify _ _ pruned_dropCorpToken)

end Frame

/-- **The corp token is gone from every place authentication reads**: no header that is read
after stripping has its name, every other header is read as before, and stripping removed
nothing from the request but entries of that name. -/
theorem corp_token_stripped (lower : Text → Text) (str : Value α → Text) (data : Entries α) :
    (∀ e ∈ (extractAuthHeaders lower str (stripCorpTokenEverywhere lower data)).entries,
        lower e.1 ≠ corpAuthHeaderLower lower) ∧
      (∀ e ∈ (extractAuthHeaders lower str data).entries, lower e.1 ≠ corpAuthHeaderLower lower →
        e ∈ (extractAuthHeaders lower str (stripCorpTokenEverywhere lower data)).entries) ∧
      PrunedEntries lower data (stripCorpTokenEverywhere lower data) := by
  rw [extractAuthHeaders_strip]
  refine ⟨?_, ?_, prunedEntries_strip data⟩
  · intro e he
    simpa using (List.mem_filter.mp he).2
  · intro e he hname
    exact List.mem_filter.mpr ⟨he, by simpa using hname⟩

end CorpLlmGateway.LitellmHook
