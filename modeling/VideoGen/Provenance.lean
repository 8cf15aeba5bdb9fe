import Mathlib.Data.List.Pairwise
import VideoGen.Changes
import VideoGen.Delivery
import VideoGen.Lib.Contract
import VideoGen.StoredFiles

/-!
# Where the data come from

What is submitted to the AI provider goes back to the request that created the
video, and what the application stores and announces goes back to what the
provider answered for that video.  The facts are about the calls answered so
far, so they last; every program is shown to use only what it has been given.
-/

namespace VideoGen

abbrev Past := List (Call × Fate)

/-! ## What the user asked for -/

/-- What a row keeps of the request that created it. -/
inductive Wished where
  | prompt
  | negativePrompt
  | width
  | height
  | fps
  | model
  | owner

def Wished.of : Wished → Video → Option String ⊕ Option ℤ
  | .prompt, row => .inl (some row.prompt)
  | .negativePrompt, row => .inl row.negativePrompt
  | .width, row => .inr row.width
  | .height, row => .inr row.height
  | .fps, row => .inr row.fps
  | .model, row => .inl row.model
  | .owner, row => .inl (some row.userId)

/-- The id of the row that a creation has inserted, also when its answer was lost. -/
def createdId? : Call × Fate → Option String
  | (.insertVideo none _, .ok (.uuid id)) => some id
  | (.insertVideo none _, .lost (.uuid id) _) => some id
  | _ => none

section Facts

variable (config : StorageConfig) (past : Past) (videoId : String)

def CreatedIn (userId : String) (dto : CreateVideoDto) : Prop :=
  ∃ f, (Call.insertVideo none (dto.fields userId), f) ∈ past ∧
    createdId? (.insertVideo none (dto.fields userId), f) = some videoId

def Asked (c : Wished) (value : Option String ⊕ Option ℤ) : Prop :=
  ∃ userId dto, CreatedIn past videoId userId dto ∧
    value = c.of (Video.create videoId (dto.fields userId) 0)

/-- The prompt itself, or what the language model made of it. -/
def Enhanced (prompt enhanced : String) : Prop :=
  enhanced = prompt ∨ (Call.chatCompletion prompt, Fate.ok (.text (some enhanced))) ∈ past

structure FollowsRequest (params : GenerateVideoParams) : Prop where
  prompt : ∃ prompt, Asked past videoId .prompt (.inl (some prompt)) ∧
    Enhanced past prompt params.prompt
  negativePrompt : Asked past videoId .negativePrompt (.inl params.negativePrompt)
  width : Asked past videoId .width (.inr params.width)
  height : Asked past videoId .height (.inr params.height)
  fps : Asked past videoId .fps (.inr params.fps)
  model : Asked past videoId .model (.inl params.model)

/-! ## What the provider answered -/

def Submitted (first : GenerateVideoResult) : Prop :=
  ∃ params, (Call.generateVideo params videoId, Fate.ok (.generation first)) ∈ past

def PolledFor (result : GenerateVideoResult) : Prop :=
  ∃ first, Submitted past videoId first ∧
    (Call.getGenerationStatus first.jobId, Fate.ok (.generation result)) ∈ past

/-- The bytes were downloaded from where a poll of the video said. -/
def Fetched (body : Bytes) : Prop :=
  ∃ result url, PolledFor past videoId result ∧ result.alreadyStored ≠ some true ∧
    result.videoUrl = some url ∧ (Call.httpsGet url, Fate.ok (.bytes body)) ∈ past

/-- The url is what a poll of the video gave as stored already, or that of a stored download. -/
def Rendered (url : String) : Prop :=
  (∃ result, PolledFor past videoId result ∧ result.alreadyStored = some true ∧
    result.videoUrl = some url) ∨
  ∃ body, Fetched past videoId body ∧ url = getPublicUrl config (outputKey videoId) ∧
    (Call.s3Put (outputKey videoId) body "video/mp4", Fate.ok .unit) ∈ past

def Depicted (url : String) : Prop :=
  ∃ result, PolledFor past videoId result ∧ result.thumbnailUrl = some url

/-- The columns of a row go back to its creation and to its generation. -/
structure RowFrom (row : Video) : Prop where
  asked : ∀ c : Wished, Asked past videoId c (c.of row)
  rendered : ∀ url, row.videoUrl = some url → Rendered config past videoId url
  depicted : ∀ url, row.thumbnailUrl = some url → Depicted past videoId url

end Facts

structure EventFrom (config : StorageConfig) (past : Past) (event : VideoCompletedEvent) :
    Prop where
  rendered : Rendered config past event.videoId event.videoUrl
  depicted : ∀ url, event.thumbnailUrl = some url → Depicted past event.videoId url

section Lasting

variable {config : StorageConfig} {past past' : Past} {videoId : String} (h : past ⊆ past')

include h

theorem CreatedIn.mono {userId : String} {dto : CreateVideoDto}
    (hcreated : CreatedIn past videoId userId dto) : CreatedIn past' videoId userId dto := by
  obtain ⟨f, hmem, hid⟩ := hcreated
  exact ⟨f, h hmem, hid⟩

theorem Asked.mono {c : Wished} {value : Option String ⊕ Option ℤ}
    (hasked : Asked past videoId c value) : Asked past' videoId c value := by
  obtain ⟨userId, dto, hcreated, hvalue⟩ := hasked
  exact ⟨userId, dto, hcreated.mono h, hvalue⟩

theorem Enhanced.mono {prompt enhanced : String} (henhanced : Enhanced past prompt enhanced) :
    Enhanced past' prompt enhanced := henhanced.imp_right fun hmem ↦ h hmem

theorem Submitted.mono {first : GenerateVideoResult} (hfirst : Submitted past videoId first) :
    Submitted past' videoId first := by
  obtain ⟨params, hmem⟩ := hfirst
  exact ⟨params, h hmem⟩

theorem PolledFor.mono {result : GenerateVideoResult} (hpolled : PolledFor past videoId result) :
    PolledFor past' videoId result := by
  obtain ⟨first, hfirst, hmem⟩ := hpolled
  exact ⟨first, hfirst.mono h, h hmem⟩

theorem Fetched.mono {body : Bytes} (hfetched : Fetched past videoId body) :
    Fetched past' videoId body := by
  obtain ⟨result, url, hpolled, hstored, hurl, hmem⟩ := hfetched
  exact ⟨result, url, hpolled.mono h, hstored, hurl, h hmem⟩

theorem Rendered.mono {url : String} (hrendered : Rendered config past videoId url) :
    Rendered config past' videoId url := by
  rcases hrendered with ⟨result, hpolled, hrest⟩ | ⟨body, hfetched, hurl, hmem⟩
  · exact .inl ⟨result, hpolled.mono h, hrest⟩
  · exact .inr ⟨body, hfetched.mono h, hurl, h hmem⟩

theorem Depicted.mono {url : String} (hdepicted : Depicted past videoId url) :
    Depicted past' videoId url := by
  obtain ⟨result, hpolled, hurl⟩ := hdepicted
  exact ⟨result, hpolled.mono h, hurl⟩

theorem RowFrom.mono {row : Video} (hrow : RowFrom config past videoId row) :
    RowFrom config past' videoId row where
  asked c := (hrow.asked c).mono h
  rendered url hurl := (hrow.rendered url hurl).mono h
  depicted url hurl := (hrow.depicted url hurl).mono h

theorem EventFrom.mono {event : VideoCompletedEvent} (hevent : EventFrom config past event) :
    EventFrom config past' event where
  rendered := hevent.rendered.mono h
  depicted url hurl := (hevent.depicted url hurl).mono h

end Lasting

/-! ## The contract -/

abbrev Logged := Machine.Recorded interface World Fate

/-- Rows, objects and announcements come from requests and answers. -/
structure Sourced (config : StorageConfig) (s : Logged) : Prop where
  rows : ∀ videoId row, s.state.videos.find? videoId = some row →
    RowFrom config s.calls videoId row
  bucket : ∀ key body contentType, s.state.bucket key = some (body, contentType) →
    ∃ videoId, key = outputKey videoId ∧ contentType = "video/mp4" ∧
      Fetched s.calls videoId body
  events : ∀ event, DomainEvent.completed event ∈ s.state.events → EventFrom config s.calls event

/-- The call passes on what was asked for or answered. -/
def UsesGiven (config : StorageConfig) (s : Logged) : Call → Prop
  | .insertVideo none fields => ∃ userId dto, fields = CreateVideoDto.fields dto userId
  | .insertVideo (some id) fields => ∀ now, RowFrom config s.calls id (Video.create id fields now)
  | .updateVideo id _ fields => ∀ row now, RowFrom config s.calls id row →
      RowFrom config s.calls id (row.assign fields now)
  | .generateVideo params videoId => FollowsRequest s.calls videoId params
  | .s3Put key body contentType => ∃ videoId, key = outputKey videoId ∧
      contentType = "video/mp4" ∧ Fetched s.calls videoId body
  | .emit (.completed event) => EventFrom config s.calls event
  | _ => True

section Contract

variable {config : StorageConfig} {s s' : Logged} {c : Call} {f : Fate}
  {r : Except Thrown c.Reply}

theorem rowFrom_created {past : Past} {videoId userId : String} {dto : CreateVideoDto} {now : ℕ}
    (h : CreatedIn past videoId userId dto) :
    RowFrom config past videoId (Video.create videoId (dto.fields userId) now) where
  asked c := ⟨userId, dto, h, by cases c <;> rfl⟩
  rendered url hurl := by cases hurl
  depicted url hurl := by cases hurl

theorem createdBy_of_insert {past : Past} {w w' : World} {userId id : String}
    {dto : CreateVideoDto} {r : Except Thrown Video} {row : Video}
    (h : w.exec (.insertVideo none (dto.fields userId)) f = some (w', r))
    (hnew : w.videos.find? id = none) (hrow : w'.videos.find? id = some row) :
    CreatedIn (past ++ [(Call.insertVideo none (dto.fields userId), f)]) id userId dto := by
  have hanswer {b : Answer} {x : Video} (hx : w.answer (.insertVideo none (dto.fields userId)) b =
      some (w', x)) : b = .uuid id := by
    obtain ⟨id', hx', -, hfind⟩ := World.answer_insertVideo hx
    rw [hfind] at hrow
    by_cases hid : id = id'
    · subst hid
      cases b with
      | uuid id' =>
          obtain ⟨videos, -, heq⟩ := Option.map_eq_some_iff.mp hx
          obtain ⟨-, rfl⟩ := Prod.mk.inj heq
          have hid : id' = id := congrArg Video.id hx'
          rw [hid]
      | _ => cases hx
    · rw [if_neg hid, hnew] at hrow
      cases hrow
  rcases World.exec_cases h with ⟨b, x, rfl, hx, -⟩ | ⟨e, rfl, -, rfl, -⟩ |
    ⟨b, e, x, rfl, -, hx, -⟩
  · obtain rfl := hanswer hx
    exact ⟨.ok (.uuid id), by simp, rfl⟩
  · rw [hnew] at hrow
    cases hrow
  · obtain rfl := hanswer hx
    exact ⟨.lost (.uuid id) e, by simp, rfl⟩

theorem Sourced.exec (hs : Sourced config s) (hc : UsesGiven config s c)
    (h : s.state.exec c f = some (s'.state, r)) (hcalls : s'.calls = s.calls ++ [(c, f)]) :
    Sourced config s' := by
  have hmore : s.calls ⊆ s'.calls := by
    rw [hcalls]
    exact List.subset_append_left _ _
  constructor
  · intro videoId row' hrow'
    rcases World.row_cases h hrow' with hrow | ⟨expected, fields, row, rfl, hrow, -, rfl⟩ |
      ⟨newId, fields, rfl, hid, hnew, rfl⟩
    · exact (hs.rows videoId row' hrow).mono hmore
    · exact (hc row s.state.now (hs.rows videoId row hrow)).mono hmore
    · rcases hid with rfl | rfl
      · obtain ⟨userId, dto, rfl⟩ := hc
        apply rowFrom_created
        rw [hcalls]
        exact createdBy_of_insert h hnew hrow'
      · exact (hc s.state.now).mono hmore
  · intro key body contentType hobject
    have hkept (hsame : s'.state.bucket key = s.state.bucket key) : ∃ videoId,
        key = outputKey videoId ∧ contentType = "video/mp4" ∧ Fetched s'.calls videoId body := by
      rw [hsame] at hobject
      obtain ⟨videoId, hkey, htype, hfetched⟩ := hs.bucket key body contentType hobject
      exact ⟨videoId, hkey, htype, hfetched.mono hmore⟩
    rcases World.exec_effect h with ⟨-, hw, -⟩ | ⟨-, b, x, hx, -⟩
    · exact hkept (by rw [hw])
    rcases World.answer_bucket_cases hx with hsame | ⟨key', body', type', rfl, hw⟩ |
      ⟨key', rfl, hw⟩
    · exact hkept (by rw [hsame])
    · by_cases hkey : key = key'
      · subst hkey
        rw [hw] at hobject
        obtain ⟨rfl, rfl⟩ : body' = body ∧ type' = contentType := by
          simpa [World.setBucket] using hobject
        obtain ⟨videoId, hout, htype, hfetched⟩ := hc
        exact ⟨videoId, hout, htype, hfetched.mono hmore⟩
      · exact hkept (by rw [hw]; simp [World.setBucket, hkey])
    · by_cases hkey : key = key'
      · subst hkey
        rw [hw] at hobject
        simp [World.setBucket] at hobject
      · exact hkept (by rw [hw]; simp [World.setBucket, hkey])
  · intro event hevent
    by_cases hemits : c.Emits = false
    · rw [World.exec_events h hemits] at hevent
      exact (hs.events event hevent).mono hmore
    cases c with
    | emit e =>
        rcases World.exec_effect h with ⟨-, hw, -⟩ | ⟨-, b, x, hx, -⟩
        · rw [hw] at hevent
          exact (hs.events event hevent).mono hmore
        · rw [World.answer_emit hx] at hevent
          rcases List.mem_append.mp hevent with hold | hnew
          · exact (hs.events event hold).mono hmore
          · obtain rfl := List.mem_singleton.mp hnew
            exact EventFrom.mono hmore hc
    | _ => exact absurd rfl hemits

def provenance (config : StorageConfig) :
    Contract (I := interface) (system config).recording.exec where
  Inv := Sourced config
  Later s s' := s.calls ⊆ s'.calls
  Allows := UsesGiven config
  refl _ := List.Subset.refl _
  trans _ _ _ h h' := List.Subset.trans h h'
  step s c f s' r hs hc h := by
    obtain ⟨hexec, hcalls⟩ := Machine.recording_exec.mp h
    refine ⟨hs.exec hc hexec hcalls, ?_⟩
    rw [hcalls]
    exact List.subset_append_left _ _

end Contract

/-! ## The programs -/

section Programs

variable {config : StorageConfig} {s s' : Logged} {job : Job} {α : Type}

abbrev KeepsSources (config : StorageConfig) (p : Prog α) (s : Logged) : Prop :=
  (provenance config).Keeps p s

theorem logged_of_ok {c : Call} {f : Fate} {x : c.Reply}
    (h : (system config).recording.exec s c f = some (s', .ok x)) : ∃ a,
      s.state.answer c a = some (s'.state, x) ∧ (c, Fate.ok a) ∈ s'.calls := by
  obtain ⟨hexec, hcalls⟩ := Machine.recording_exec.mp h
  have hexec : s.state.exec c f = some (s'.state, .ok x) := hexec
  rcases World.exec_cases hexec with ⟨a, y, rfl, ha, hy⟩ | ⟨e, -, -, -, he⟩ |
    ⟨a, e, y, -, -, -, he⟩
  · obtain rfl := Except.ok.inj hy
    exact ⟨a, ha, by simp [hcalls]⟩
  · cases he
  · cases he

theorem later_of_exec {c : Call} {f : Fate} {r : Except Thrown c.Reply}
    (h : (system config).recording.exec s c f = some (s', r)) : s.calls ⊆ s'.calls := by
  rw [(Machine.recording_exec.mp h).2]
  exact List.subset_append_left _ _

def VideoFields.Silent (fields : VideoFields) : Prop :=
  fields =
    { status := fields.status, errorMessage := fields.errorMessage, metadata := fields.metadata
      queueJobId := fields.queueJobId }

theorem harmless_of_silent {id : String} {expected : Option VideoStatus} {fields : VideoFields}
    (h : fields.Silent) : (provenance config).Harmless (.updateVideo id expected fields) := by
  intro s _ row now hrow
  rw [h]
  exact ⟨fun c ↦ by cases c <;> exact hrow.asked _, hrow.rendered, hrow.depicted⟩

theorem silent_link (jobId : ℕ) : (queueJobIdFields jobId).Silent := rfl

theorem silent_reset : resetFields.Silent := rfl

theorem silent_failed (message : String) : (failedFields message).Silent := rfl

theorem silent_progress (percent : ℤ) (message : String) (additionalMeta : JsObject) :
    (progressFields percent message additionalMeta).Silent := rfl

theorem silent_start : (startExtra.fields .processing).Silent := rfl

/-! ### Creating, retrying, recording, removing -/

theorem keepsSources_createAndQueue (userId : String) (dto : CreateVideoDto) (s : Logged) :
    KeepsSources config (createAndQueue userId dto) s := by
  apply Contract.keeps_of_calls
  refine (calls_ask fun _ _ ↦ ⟨userId, dto, rfl⟩).bind fun saved ↦ ?_
  refine (calls_ask fun _ _ ↦ trivial).bind fun jobId ↦ ?_
  refine (calls_ask (harmless_of_silent (silent_link _))).bind fun _ ↦ ?_
  exact (calls_ask fun _ _ ↦ trivial).bind fun _ ↦ trivial

theorem keepsSources_retryFailedJob (id : String) (s : Logged) :
    KeepsSources config (retryFailedJob id) s := by
  apply Contract.keeps_of_calls
  refine (calls_ask fun _ _ ↦ trivial).bind fun record ↦ ?_
  cases record with
  | none => trivial
  | some record =>
      change Program.Calls _ (if record.retried = true then _ else _)
      split
      · trivial
      refine (calls_ask (harmless_of_silent silent_reset)).bind fun _ ↦ ?_
      refine (calls_ask fun _ _ ↦ trivial).bind fun jobId ↦ ?_
      refine (calls_ask fun _ _ ↦ trivial).bind fun now ↦ ?_
      refine (calls_ask (harmless_of_silent (silent_link _))).bind fun _ ↦ ?_
      exact (calls_ask fun _ _ ↦ trivial).bind fun _ ↦ trivial

theorem keepsSources_onVideoFailed (event : VideoFailedEvent) (s : Logged) :
    KeepsSources config (onVideoFailed event) s := by
  apply Contract.keeps_of_calls
  refine Program.Calls.catchWith ?_ fun _ ↦ trivial
  refine (calls_ask fun _ _ ↦ trivial).bind fun video ↦ ?_
  exact (calls_ask fun _ _ ↦ trivial).bind fun _ ↦ trivial

theorem keepsSources_remove (id userId : String) (s : Logged) :
    KeepsSources config (remove id userId) s := by
  apply Contract.keeps_of_calls
  exact (calls_findOneForUser fun _ _ ↦ trivial).bind fun video ↦ calls_ask fun _ _ ↦ trivial

/-! ### Editing -/

theorem rowFrom_changes {past : Past} {videoId : String} {entity row row' : Video} {now : ℕ}
    (hentity : RowFrom config past videoId entity) (hrow : RowFrom config past videoId row) :
    RowFrom config past videoId (row.assign (entity.changes row') now) := by
  have hpick {β : Type} [DecidableEq β] {x y z : β} {P : β → Prop} (hx : P x) (hz : P z) :
      P ((if x = y then none else some x : Option β).getD z) := by
    split
    · exact hz
    · exact hx
  constructor
  · intro c
    have hx := hentity.asked c
    have hz := hrow.asked c
    cases c with
    | prompt => exact hpick (P := fun v ↦ Asked past videoId .prompt (.inl (some v))) hx hz
    | negativePrompt => exact hpick (P := fun v ↦ Asked past videoId .negativePrompt (.inl v)) hx hz
    | width => exact hpick (P := fun v ↦ Asked past videoId .width (.inr v)) hx hz
    | height => exact hpick (P := fun v ↦ Asked past videoId .height (.inr v)) hx hz
    | fps => exact hpick (P := fun v ↦ Asked past videoId .fps (.inr v)) hx hz
    | model => exact hpick (P := fun v ↦ Asked past videoId .model (.inl v)) hx hz
    | owner => exact hpick (P := fun v ↦ Asked past videoId .owner (.inl (some v))) hx hz
  · exact hpick (P := fun v ↦ ∀ url, v = some url → Rendered config past videoId url)
      hentity.rendered hrow.rendered
  · exact hpick (P := fun v ↦ ∀ url, v = some url → Depicted past videoId url)
      hentity.depicted hrow.depicted

theorem rowFrom_allFields {past : Past} {videoId : String} {entity : Video} {now : ℕ}
    (h : RowFrom config past videoId entity) :
    RowFrom config past videoId (Video.create videoId entity.allFields now) where
  asked c := by cases c <;> exact h.asked _
  rendered := h.rendered
  depicted := h.depicted

theorem keepsSources_saveVideo {entity : Video} (h : RowFrom config s.calls entity.id entity) :
    KeepsSources config (saveVideo entity) s := by
  refine Contract.keeps_bind (Contract.keeps_perform fun s₁ hlater₁ _ ↦ ⟨trivial, ?_⟩)
  rintro f s₂ r hselect row rfl
  have h₂ := (h.mono hlater₁).mono (later_of_exec hselect)
  cases row with
  | none =>
      exact Contract.keeps_perform fun s₃ hlater₃ _ ↦
        ⟨fun now ↦ rowFrom_allFields (h₂.mono hlater₃), fun _ _ _ _ ↦ trivial⟩
  | some row =>
      change KeepsSources config (if entity.changes row = {} then _ else _) s₂
      split
      · trivial
      refine Contract.keeps_bind (Contract.keeps_perform fun s₃ hlater₃ _ ↦
        ⟨fun row' now hrow' ↦ rowFrom_changes (h₂.mono hlater₃) hrow', ?_⟩)
      rintro f s₄ r - affected rfl
      trivial

theorem keepsSources_update (id userId : String) (dto : UpdateVideoDto) (s : Logged) :
    KeepsSources config (update id userId dto) s := by
  refine Program.keeps_bind.mpr (Program.keeps_bind.mpr
    (Contract.keeps_perform fun s₁ _ hs₁ ↦ ⟨trivial, ?_⟩))
  rintro f s₂ (e | row) hselect
  · trivial
  obtain ⟨b, hb, -⟩ := logged_of_ok hselect
  obtain ⟨hw, rfl⟩ := World.answer_selectVideo hb
  cases hrow : s₁.state.videos.find? id with
  | none => trivial
  | some row =>
      have hfrom := (hs₁.rows id row hrow).mono (later_of_exec hselect)
      obtain rfl := Table.key_of_find? hrow
      change Program.Keeps (provenance config).spec _ (if row.userId = userId then _ else _) s₂
      split
      · apply keepsSources_saveVideo
        exact ⟨fun c ↦ by cases c <;> exact hfrom.asked _, hfrom.rendered, hfrom.depicted⟩
      · trivial

/-! ### Uploading -/

theorem put_of_withRetryFrom {key : String} {body : Bytes} {videoId : String}
    (hkey : key = outputKey videoId) (maxAttempts remaining attempt : ℕ) (lastError : Thrown)
    (hfetched : Fetched s.calls videoId body) :
    (withRetryFrom (ask (.s3Put key body "video/mp4")) maxAttempts attempt lastError
      remaining).Keeps (provenance config).spec
      (fun s' r ↦ ∀ x, r = .ok x → (Call.s3Put key body "video/mp4", Fate.ok .unit) ∈ s'.calls)
      s := by
  induction remaining generalizing attempt lastError s with
  | zero => rintro x ⟨⟩
  | succ remaining ih =>
      refine Program.keeps_bind.mpr (Program.keeps_attempt.mpr
        (Contract.keeps_perform fun s₁ hlater₁ _ ↦
          ⟨⟨videoId, hkey, rfl, hfetched.mono hlater₁⟩, ?_⟩))
      rintro f s₂ (error | x) hput
      · have hfetched₂ := (hfetched.mono hlater₁).mono (later_of_exec hput)
        change Program.Keeps _ _ (if attempt < maxAttempts then _ else _) s₂
        split
        · rw [readMessage_then]
          refine Contract.keeps_calls_then (calls_ask (c := .setTimeout _) fun _ _ ↦ trivial)
            (fun _ s₃ hlater₃ ↦ ih _ _ (hfetched₂.mono hlater₃)) fun e s₃ _ ↦ ?_
          rintro x ⟨⟩
        · exact ih _ _ hfetched₂
      · rintro _ -
        obtain ⟨b, hb, hmem⟩ := logged_of_ok hput
        cases b with
        | unit => exact hmem
        | _ => cases hb

theorem rendered_of_storeVideo {result : GenerateVideoResult} {videoUrl : String}
    (hpolled : PolledFor s.calls job.data.videoId result) (hurl : result.videoUrl = some videoUrl) :
    (storeVideo config job result videoUrl).Keeps (provenance config).spec
      (fun s' r ↦ ∀ url, r = .ok url → Rendered config s'.calls job.data.videoId url) s := by
  unfold storeVideo
  split
  · rintro url ⟨⟩
    exact .inl ⟨result, hpolled, by assumption, hurl⟩
  · rename_i hstored
    refine Program.keeps_bind.mpr (Program.keeps_catchWith.mpr
      (Contract.keeps_perform fun s₁ hlater₁ _ ↦ ⟨trivial, ?_⟩))
    rintro f s₂ (e | body) hget
    · rintro url ⟨⟩
    obtain ⟨b, hb, hmem⟩ := logged_of_ok hget
    have hfetched : Fetched s₂.calls job.data.videoId body := by
      refine ⟨result, videoUrl, (hpolled.mono hlater₁).mono (later_of_exec hget), hstored, hurl, ?_⟩
      cases b with
      | bytes body' =>
          obtain ⟨-, rfl⟩ := Prod.mk.inj (Option.some.inj hb)
          exact hmem
      | _ => cases hb
    refine Program.keeps_catchWith.mpr (Program.keeps_bind.mpr (Program.Keeps.mono ?_
      (Contract.ends_later (put_of_withRetryFrom rfl maxRetryAttempts maxRetryAttempts 1 _
        hfetched))))
    rintro s₃ (e | x) ⟨hput, hlater₃⟩
    · rintro url ⟨⟩
    · rintro url ⟨⟩
      exact .inr ⟨body, hfetched.mono hlater₃, rfl, hput x rfl⟩

/-! ### Executions -/

theorem enhanced_of_enhancePrompt (prompt : String) :
    (enhancePrompt prompt).Keeps (provenance config).spec
      (fun s' r ↦ ∀ enhanced, r = .ok enhanced → Enhanced s'.calls prompt enhanced) s := by
  refine Program.keeps_catchWith.mpr (Program.keeps_bind.mpr
    (Contract.keeps_perform fun s₁ _ _ ↦ ⟨trivial, ?_⟩))
  rintro f s₂ (e | content) hchat
  · rintro enhanced ⟨⟩
    exact .inl rfl
  obtain ⟨b, hb, hmem⟩ := logged_of_ok hchat
  rintro enhanced ⟨⟩
  cases content with
  | none => exact .inl rfl
  | some text =>
      cases b with
      | text content =>
          obtain ⟨-, rfl⟩ := Prod.mk.inj (Option.some.inj hb)
          exact .inr hmem
      | _ => cases hb

theorem usesGiven_complete {videoId url : String} {thumbnailUrl : Option String}
    (hurl : Rendered config s.calls videoId url)
    (hthumbnail : ∀ url, thumbnailUrl = some url → Depicted s.calls videoId url) :
    UsesGiven config s (.updateVideo videoId (some .processing)
      ((completeExtra url thumbnailUrl).fields .completed)) := by
  intro row now hrow
  refine ⟨fun c ↦ by cases c <;> exact hrow.asked _, ?_, ?_⟩
  · rintro url' ⟨⟩
    exact hurl
  · cases thumbnailUrl with
    | none => exact hrow.depicted
    | some thumbnail =>
        rintro url' ⟨⟩
        exact hthumbnail _ rfl

theorem keepsSources_finishGeneration {result : GenerateVideoResult} {videoUrl : String}
    (hpolled : PolledFor s.calls job.data.videoId result) (hurl : result.videoUrl = some videoUrl) :
    KeepsSources config (finishGeneration config job result videoUrl) s := by
  refine Contract.keeps_bind (Program.Keeps.mono ?_
    (Contract.ends_later (rendered_of_storeVideo hpolled hurl)))
  rintro s₁ r ⟨hstored, hlater₁⟩ storedUrl hr
  have hrendered := hstored storedUrl hr
  have hdepicted (url : String) (h : result.thumbnailUrl = some url) :
      Depicted s₁.calls job.data.videoId url := ⟨result, hpolled.mono hlater₁, h⟩
  have htail {s₂ : Logged} (hlater : s₁.calls ⊆ s₂.calls) : KeepsSources config (do
      jobUpdateProgress job 100
      emit (.completed ⟨job.data.videoId, storedUrl, result.thumbnailUrl⟩)) s₂ := by
    refine Contract.keeps_calls_bind (calls_ask fun _ _ ↦ trivial) fun _ s₃ hlater₃ ↦ ?_
    refine Contract.keeps_perform fun s₄ hlater₄ _ ↦ ⟨?_, fun _ _ _ _ ↦ trivial⟩
    have hlater := List.Subset.trans (List.Subset.trans hlater hlater₃) hlater₄
    exact ⟨hrendered.mono hlater, fun url h ↦ (hdepicted url h).mono hlater⟩
  refine Contract.keeps_bind ?_
  rw [transitionStatus, if_pos allowed_processing_completed]
  refine Program.keeps_bind.mpr (Contract.keeps_perform fun s₂ hlater₂ _ ↦
    ⟨usesGiven_complete (hrendered.mono hlater₂) fun url h ↦ (hdepicted url h).mono hlater₂, ?_⟩)
  rintro f s₃ (e | affected) hupdate
  · rintro a ⟨⟩
  have hlater₃ := List.Subset.trans hlater₂ (later_of_exec hupdate)
  change Program.Keeps _ _ (if affected = 0 then _ else _) s₃
  split
  · exact fun _ _ ↦ htail hlater₃
  · refine Contract.keeps_calls_then (calls_writeCache (fun _ _ ↦ trivial) (fun _ _ _ _ ↦ trivial)
      _ _ _ _) (fun _ s₄ hlater₄ _ _ ↦ htail (List.Subset.trans hlater₃ hlater₄)) ?_
    rintro e s₄ - a ⟨⟩

theorem of_truthy {s : Option String} {t : String} (h : truthy s = some t) : s = some t := by
  cases s with
  | none => cases h
  | some u =>
      change (if u = "" then none else some u) = some t at h
      split at h
      · cases h
      · exact h

theorem keepsSources_pollLoop {first : GenerateVideoResult} (remaining : ℕ)
    (status : GenerationStatus) (pollAttempts : ℕ)
    (hfirst : Submitted s.calls job.data.videoId first) :
    KeepsSources config (pollLoop config job first.jobId status pollAttempts remaining) s := by
  induction remaining generalizing status pollAttempts s with
  | zero => trivial
  | succ remaining ih =>
      unfold pollLoop
      split
      · refine Contract.keeps_calls_bind (calls_ask fun _ _ ↦ trivial) fun _ s₁ hlater₁ ↦ ?_
        refine Contract.keeps_bind (Contract.keeps_perform fun s₂ hlater₂ _ ↦ ⟨trivial, ?_⟩)
        rintro f s₃ r hpoll result rfl
        have hfirst₃ := ((hfirst.mono hlater₁).mono hlater₂).mono (later_of_exec hpoll)
        have hpolled : PolledFor s₃.calls job.data.videoId result := by
          obtain ⟨b, hb, hmem⟩ := logged_of_ok hpoll
          refine ⟨first, hfirst₃, ?_⟩
          cases b with
          | generation result' =>
              obtain ⟨-, rfl⟩ := Prod.mk.inj (Option.some.inj hb)
              exact hmem
          | _ => cases hb
        refine Contract.keeps_calls_bind (calls_updateProgress (fun _ _ ↦ trivial)
          (fun _ _ _ _ ↦ trivial) (harmless_of_silent (silent_progress _ _ _)))
          fun _ s₄ hlater₄ ↦ ?_
        refine Contract.keeps_calls_bind (calls_ask fun _ _ ↦ trivial) fun _ s₅ hlater₅ ↦ ?_
        refine Contract.keeps_calls_bind (calls_ask fun _ _ ↦ trivial) fun _ s₆ hlater₆ ↦ ?_
        have hlater := List.Subset.trans (List.Subset.trans hlater₄ hlater₅) hlater₆
        split
        · rename_i videoUrl hurl
          exact keepsSources_finishGeneration (hpolled.mono hlater) (of_truthy hurl)
        · exact ih _ _ (hfirst₃.mono hlater)
      · trivial

theorem keepsSources_generate {video : Video}
    (hvideo : ∀ c : Wished, Asked s.calls job.data.videoId c (c.of video)) :
    KeepsSources config (generate config job video) s := by
  refine Contract.keeps_calls_bind (calls_ask fun _ _ ↦ trivial) fun _ s₁ hlater₁ ↦ ?_
  refine Contract.keeps_calls_bind (calls_ask fun _ _ ↦ trivial) fun _ s₂ hlater₂ ↦ ?_
  refine Contract.keeps_bind (Program.Keeps.mono ?_
    (Contract.ends_later (enhanced_of_enhancePrompt video.prompt)))
  rintro s₃ r ⟨henhanced, hlater₃⟩ prompt hr
  refine Contract.keeps_calls_bind (calls_updateProgress (fun _ _ ↦ trivial)
    (fun _ _ _ _ ↦ trivial) (harmless_of_silent (silent_progress _ _ _))) fun _ s₄ hlater₄ ↦ ?_
  refine Contract.keeps_calls_bind (calls_ask fun _ _ ↦ trivial) fun _ s₅ hlater₅ ↦ ?_
  have hlater₃₅ := List.Subset.trans hlater₄ hlater₅
  have hlater₀₅ : s.calls ⊆ s₅.calls := List.Subset.trans (List.Subset.trans hlater₁ hlater₂)
    (List.Subset.trans hlater₃ hlater₃₅)
  refine Contract.keeps_bind (Contract.keeps_perform fun s₆ hlater₆ _ ↦ ⟨?_, ?_⟩)
  · have hasked (c : Wished) := ((hvideo c).mono hlater₀₅).mono hlater₆
    exact
      { prompt := ⟨_, hasked .prompt, ((henhanced prompt hr).mono hlater₃₅).mono hlater₆⟩
        negativePrompt := hasked .negativePrompt
        width := hasked .width
        height := hasked .height
        fps := hasked .fps
        model := hasked .model }
  rintro f s₇ r hsubmit first rfl
  have hfirst : Submitted s₇.calls job.data.videoId first := by
    obtain ⟨b, hb, hmem⟩ := logged_of_ok hsubmit
    cases b with
    | generation result =>
        obtain ⟨-, rfl⟩ := Prod.mk.inj (Option.some.inj hb)
        exact ⟨_, hmem⟩
    | _ => cases hb
  refine Contract.keeps_calls_bind (calls_updateProgress (fun _ _ ↦ trivial)
    (fun _ _ _ _ ↦ trivial) (harmless_of_silent (silent_progress _ _ _))) fun _ s₈ hlater₈ ↦ ?_
  refine Contract.keeps_calls_bind (calls_ask fun _ _ ↦ trivial) fun _ s₉ hlater₉ ↦ ?_
  exact keepsSources_pollLoop _ _ _ ((hfirst.mono hlater₈).mono hlater₉)

theorem keepsSources_attemptGeneration : KeepsSources config (attemptGeneration config job) s := by
  refine Program.keeps_bind.mpr (Program.keeps_bind.mpr
    (Contract.keeps_perform fun s₁ _ hs₁ ↦ ⟨trivial, ?_⟩))
  rintro f s₂ (e | row) hselect
  · trivial
  obtain ⟨b, hb, -⟩ := logged_of_ok hselect
  obtain ⟨hw, rfl⟩ := World.answer_selectVideo hb
  cases hrow : s₁.state.videos.find? job.data.videoId with
  | none => trivial
  | some video =>
      have hvideo := ((hs₁.rows _ video hrow).mono (later_of_exec hselect)).asked
      refine Contract.keeps_calls_bind (calls_transitionStatus (fun _ _ ↦ trivial)
        (fun _ _ _ _ ↦ trivial) fun _ ↦ harmless_of_silent silent_start) fun started s₃ hlater₃ ↦ ?_
      split
      · exact keepsSources_generate fun c ↦ (hvideo c).mono hlater₃
      · trivial

theorem keepsSources_process (job : Job) (s : Logged) :
    KeepsSources config (process config job) s := by
  unfold process
  split
  · refine Contract.Keeps.catchWith keepsSources_attemptGeneration fun error s' ↦ ?_
    apply Contract.keeps_of_calls
    change Program.Calls _ (if IsFinalAttempt job then _ else _)
    split
    · refine (calls_markFailed (harmless_of_silent (silent_failed _)) fun _ _ ↦ trivial).bind
        fun _ ↦ ?_
      exact (calls_ask fun _ _ ↦ trivial).bind fun _ ↦ trivial
    · trivial
  · trivial

def Task.GivesNoUrl : Task → Prop
  | .service (.transitionStatus _ _ _ extra) => extra.videoUrl = none ∧ extra.thumbnailUrl = none
  | _ => True

theorem silent_transition {extra : TransitionExtra} (status : VideoStatus)
    (hurl : extra.videoUrl = none) (hthumbnail : extra.thumbnailUrl = none) :
    (extra.fields status).Silent := by
  simp [VideoFields.Silent, TransitionExtra.fields, hurl, hthumbnail]

theorem keepsSources_service {call : ServiceCall} (h : Task.GivesNoUrl (.service call))
    (s : Logged) : KeepsSources config call.body s := by
  cases call with
  | update id userId dto => exact Contract.keeps_map (keepsSources_update id userId dto s)
  | transitionStatus videoId expectedStatus newStatus extra =>
      exact Contract.keeps_map (Contract.keeps_of_calls (calls_transitionStatus
        (fun _ _ ↦ trivial) (fun _ _ _ _ ↦ trivial)
        fun _ ↦ harmless_of_silent (silent_transition newStatus h.1 h.2)) s)
  | updateProgress videoId percent message additionalMeta =>
      exact Contract.keeps_map (Contract.keeps_of_calls (calls_updateProgress
        (fun _ _ ↦ trivial) (fun _ _ _ _ ↦ trivial) (harmless_of_silent (silent_progress _ _ _))) s)
  | markFailed videoId errorMessage =>
      exact Contract.keeps_map (Contract.keeps_of_calls (calls_markFailed
        (harmless_of_silent (silent_failed _)) fun _ _ ↦ trivial) s)
  | evictCache videoId =>
      exact Contract.keeps_map (Contract.keeps_of_calls (calls_evictCache fun _ _ ↦ trivial) s)
  | getCachedStatus videoId =>
      exact Contract.keeps_map (Contract.keeps_of_calls (calls_getCachedStatus
        (fun _ _ ↦ trivial) (calls_loadFromDb (fun _ _ ↦ trivial) (fun _ _ ↦ trivial)
          fun _ _ _ ↦ trivial)) s)

theorem keepsSources_body {task : Task} (h : task.GivesNoUrl) (s : Logged) :
    KeepsSources config (task.body config) s := by
  cases task with
  | process job => exact Contract.keeps_map (keepsSources_process job s)
  | createAndQueue userId dto => exact Contract.keeps_map (keepsSources_createAndQueue userId dto s)
  | retryFailedJob id => exact Contract.keeps_map (keepsSources_retryFailedJob id s)
  | onVideoFailed event => exact Contract.keeps_map (keepsSources_onVideoFailed event s)
  | remove id userId => exact Contract.keeps_map (keepsSources_remove id userId s)
  | service call => exact keepsSources_service h s

end Programs

/-! ## Runs -/

section System

variable {config : StorageConfig} {s : State}

theorem fulfils_provenance (config : StorageConfig) :
    (system config).recording.Fulfils (provenance config) Task.GivesNoUrl where
  invoked task h s _ := keepsSources_body h s
  forked _ c _ s' _ _ _ _ task htask := by
    cases c with
    | emit event =>
        cases event with
        | failed event =>
            obtain rfl := List.mem_singleton.mp htask
            exact Contract.keeps_map (keepsSources_onVideoFailed event s')
        | _ => cases htask
    | _ => cases htask
  env s threads l s' tasks hs h := by
    obtain ⟨henv, hcalls⟩ := Machine.recording_env.mp h
    have henv : envStep s.state threads l = some (s'.state, tasks) := henv
    obtain ⟨hvideos, -, hevents⟩ := envStep_frame henv
    refine ⟨⟨?_, ?_, ?_⟩, ?_, ?_⟩
    · rw [hvideos, hcalls]
      exact hs.rows
    · rw [envStep_bucket henv, hcalls]
      exact hs.bucket
    · rw [hevents, hcalls]
      exact hs.events
    · change s.calls ⊆ s'.calls
      rw [hcalls]
      exact List.Subset.refl _
    · intro task htask
      obtain ⟨job, rfl⟩ := envStep_tasks henv task htask
      exact Contract.keeps_map (keepsSources_process job s')

theorem sourced_empty : Sourced config ⟨World.empty, []⟩ where
  rows videoId row hrow := by simp [World.empty] at hrow
  bucket key body contentType hobject := by simp [World.empty] at hobject
  events event hevent := by simp [World.empty] at hevent

theorem sourced_of_run {ts : List (Transition State Step)}
    (hrun : Run (system config).step ⟨World.empty, []⟩ ts s)
    (hinvoke : ∀ t ∈ ts, t.act.InvokesOnly Task.GivesNoUrl) :
    Sourced config ⟨s.state, Machine.answeredCalls ts⟩ :=
  ((fulfils_provenance config).recorded hrun sourced_empty hinvoke).inv

/-! ### Submissions -/

def createdIds (past : Past) : List String := past.filterMap createdId?

def CreateVideoDto.params (dto : CreateVideoDto) (prompt : String) : GenerateVideoParams where
  prompt := prompt
  negativePrompt := dto.negativePrompt
  width := some (dto.width.getD 1024)
  height := some (dto.height.getD 576)
  fps := some (dto.fps.getD 24)
  model := dto.model

theorem fields_of_createdBy {past : Past} {videoId userId userId' : String}
    {dto dto' : CreateVideoDto} (hfresh : (createdIds past).Nodup)
    (h : CreatedIn past videoId userId dto) (h' : CreatedIn past videoId userId' dto') :
    dto.fields userId = dto'.fields userId' := by
  obtain ⟨f, hmem, hid⟩ := h
  obtain ⟨f', hmem', hid'⟩ := h'
  have hsymm : Std.Symm fun x y : Call × Fate ↦ ∀ a, createdId? x = some a → ∀ b,
      createdId? y = some b → a ≠ b := ⟨fun x y hxy a ha b hb ↦ (hxy b hb a ha).symm⟩
  have hpairs := (List.pairwise_filterMap.mp hfresh).forall hmem hmem'
  by_contra hne
  have hcalls : (Call.insertVideo none (dto.fields userId), f) ≠
      (Call.insertVideo none (dto'.fields userId'), f') := by
    intro heq
    injection heq with hcall
    injection hcall with _ hfields
    exact hne hfields
  exact hpairs hcalls _ hid _ hid' rfl

theorem value_of_asked {past : Past} {videoId userId : String} {dto : CreateVideoDto} {c : Wished}
    {value : Option String ⊕ Option ℤ} (hfresh : (createdIds past).Nodup)
    (h : CreatedIn past videoId userId dto) (hasked : Asked past videoId c value) :
    value = c.of (Video.create videoId (dto.fields userId) 0) := by
  obtain ⟨userId', dto', h', rfl⟩ := hasked
  rw [fields_of_createdBy hfresh h h']

theorem exists_of_call? {t : Transition State Step} {c : Call} (h : t.call? = some c) :
    ∃ i f u, t.act = .call i f ∧ t.before.threads[i]? = some u ∧ u.pending? = some c := by
  unfold Transition.call? at h
  split at h
  · rename_i i f hact
    obtain ⟨u, hget, hpending⟩ := Option.bind_eq_some_iff.mp h
    exact ⟨i, f, u, hact, hget, hpending⟩
  · cases h

/-- In every run, whatever is called, edited, removed, retried, fails or crashes: what is
submitted to the provider for a video is what the request that created it asked for, with the
defaults of the columns, and its prompt is the one asked for or an answer that the language
model gave for it.  The database generates no id twice. -/
theorem submission_follows_request {ts pre post : List (Transition State Step)}
    {t : Transition State Step} (hrun : Run (system config).step ⟨World.empty, []⟩ ts s)
    (hinvoke : ∀ t ∈ ts, t.act.InvokesOnly Task.GivesNoUrl)
    (hfresh : (createdIds (Machine.answeredCalls ts)).Nodup) (hts : ts = pre ++ t :: post)
    {params : GenerateVideoParams} {videoId : String}
    (hcall : t.call? = some (.generateVideo params videoId)) :
    ∃ userId dto prompt, CreatedIn (Machine.answeredCalls pre) videoId userId dto ∧
      Enhanced (Machine.answeredCalls pre) dto.prompt prompt ∧ params = dto.params prompt := by
  obtain ⟨i, f, u, hact, hget, hpending⟩ := exists_of_call? hcall
  have hfollows : FollowsRequest (Machine.answeredCalls pre) videoId params :=
    (fulfils_provenance config).recorded_allows hrun sourced_empty hinvoke hts i f u _ hact hget
      hpending
  have hfresh : (createdIds (Machine.answeredCalls pre)).Nodup := by
    rw [hts, Machine.answeredCalls, List.flatMap_append, createdIds,
      List.filterMap_append] at hfresh
    exact hfresh.of_append_left
  obtain ⟨prompt, hprompt, henhanced⟩ := hfollows.prompt
  obtain ⟨userId, dto, hcreated, hvalue⟩ := hprompt
  obtain rfl : prompt = dto.prompt := Option.some.inj (Sum.inl.inj hvalue)
  refine ⟨userId, dto, params.prompt, hcreated, henhanced, ?_⟩
  have hnegative := Sum.inl.inj (value_of_asked hfresh hcreated hfollows.negativePrompt)
  have hwidth := Sum.inr.inj (value_of_asked hfresh hcreated hfollows.width)
  have hheight := Sum.inr.inj (value_of_asked hfresh hcreated hfollows.height)
  have hfps := Sum.inr.inj (value_of_asked hfresh hcreated hfollows.fps)
  have hmodel := Sum.inl.inj (value_of_asked hfresh hcreated hfollows.model)
  obtain ⟨_, negativePrompt, width, height, fps, model⟩ := params
  obtain ⟨_, _, negativePrompt', width', height', fps', model'⟩ := dto
  subst hnegative hwidth hheight hfps hmodel
  cases negativePrompt' <;> cases width' <;> cases height' <;> cases fps' <;> cases model' <;> rfl

/-! ### Files and urls -/

/-- In every run, an object of the bucket is the file of a video, and its bytes were
downloaded from the url that the provider gave when it was asked for that video. -/
theorem objects_are_downloads {ts : List (Transition State Step)}
    (hrun : Run (system config).step ⟨World.empty, []⟩ ts s)
    (hinvoke : ∀ t ∈ ts, t.act.InvokesOnly Task.GivesNoUrl) {key : String} {body : Bytes}
    {contentType : String} (hobject : s.state.bucket key = some (body, contentType)) :
    ∃ videoId, key = outputKey videoId ∧ contentType = "video/mp4" ∧
      Fetched (Machine.answeredCalls ts) videoId body :=
  (sourced_of_run hrun hinvoke).bucket key body contentType hobject

/-- In every run, the urls of a row and of an announcement go back to what the provider gave
when it was asked for that video: the video url is the provider's own or leads to a file that
was downloaded from it and stored, the thumbnail's is the provider's own. -/
theorem urls_are_answers {ts : List (Transition State Step)}
    (hrun : Run (system config).step ⟨World.empty, []⟩ ts s)
    (hinvoke : ∀ t ∈ ts, t.act.InvokesOnly Task.GivesNoUrl) :
    (∀ videoId row, s.state.videos.find? videoId = some row →
      (∀ url, row.videoUrl = some url →
        Rendered config (Machine.answeredCalls ts) videoId url) ∧
      ∀ url, row.thumbnailUrl = some url → Depicted (Machine.answeredCalls ts) videoId url) ∧
    ∀ event, DomainEvent.completed event ∈ s.state.events →
      EventFrom config (Machine.answeredCalls ts) event := by
  have hsourced := sourced_of_run hrun hinvoke
  constructor
  · intro videoId row hrow
    have hfrom := hsourced.rows videoId row hrow
    exact ⟨hfrom.rendered, hfrom.depicted⟩
  · exact hsourced.events

end System

/-! ### A stored download -/

theorem Task.Managed.givesNoUrl {task : Task} (h : task.Managed) : task.GivesNoUrl := by
  cases task with
  | service call => exact h.elim
  | _ => trivial

theorem givesNoUrl_stored (a : Step) (ha : a ∈ storedActs) : a.InvokesOnly Task.GivesNoUrl := by
  have hmanaged : ∀ a ∈ storedActs, a.InvokesOnly Task.Managed := by decide
  exact (hmanaged a ha).mono fun _ ↦ Task.Managed.givesNoUrl

def Transition.submits (t : Transition State Step) : Bool :=
  match t.call? with
  | some (.generateVideo params videoId) =>
      videoId = "video" && params = ⟨"prompt", none, some 1024, some 576, some 24, none⟩
  | _ => false

theorem submission_follows_request_stored : ∃ (ts pre post : List (Transition State Step))
    (t : Transition State Step) (s : State) (params : GenerateVideoParams),
    Run (system ⟨"bucket", none, "region"⟩).step ⟨World.empty, []⟩ ts s ∧ ts = pre ++ t :: post ∧
      t.call? = some (.generateVideo params "video") ∧
      ∃ userId dto prompt, CreatedIn (Machine.answeredCalls pre) "video" userId dto ∧
        Enhanced (Machine.answeredCalls pre) dto.prompt prompt ∧ params = dto.params prompt := by
  obtain ⟨ts, s, hrun, hacts, hobs⟩ := Run.exists_of_follow
    (system ⟨"bucket", none, "region"⟩).step ⟨World.empty, []⟩ storedActs
    (fun p ↦ (createdIds (Machine.answeredCalls p.1), p.1.any Transition.submits))
    (["other", "video"], true) (by decide +kernel)
  obtain ⟨hids, hany⟩ := Prod.mk.inj hobs
  obtain ⟨t, ht, hsubmits⟩ := List.any_eq_true.mp hany
  obtain ⟨pre, post, hts⟩ := List.append_of_mem ht
  unfold Transition.submits at hsubmits
  split at hsubmits
  · rename_i params videoId hcall
    simp only [Bool.and_eq_true, decide_eq_true_eq] at hsubmits
    obtain ⟨rfl, -⟩ := hsubmits
    refine ⟨ts, pre, post, t, s, params, hrun, hts, hcall, ?_⟩
    exact submission_follows_request hrun
      (fun t ht ↦ givesNoUrl_stored _ (hacts ▸ List.mem_map_of_mem ht)) (by rw [hids]; decide)
      hts hcall
  · cases hsubmits

theorem objects_are_downloads_stored : ∃ (ts : List (Transition State Step)) (s : State),
    Run (system ⟨"bucket", none, "region"⟩).step ⟨World.empty, []⟩ ts s ∧
      s.state.bucket (outputKey "video") = some ([], "video/mp4") ∧
      ∃ videoId, outputKey "video" = outputKey videoId ∧
        Fetched (Machine.answeredCalls ts) videoId [] := by
  obtain ⟨ts, s, hrun, hacts, hobs⟩ := Run.exists_of_follow
    (system ⟨"bucket", none, "region"⟩).step ⟨World.empty, []⟩ storedActs
    (fun p ↦ p.2.state.bucket (outputKey "video")) (some ([], "video/mp4")) (by decide +kernel)
  obtain ⟨videoId, hkey, -, hfetched⟩ := objects_are_downloads hrun
    (fun t ht ↦ givesNoUrl_stored _ (hacts ▸ List.mem_map_of_mem ht)) hobs
  exact ⟨ts, s, hrun, hobs, videoId, hkey, hfetched⟩

theorem urls_are_answers_stored : ∃ (ts : List (Transition State Step)) (s : State),
    Run (system ⟨"bucket", none, "region"⟩).step ⟨World.empty, []⟩ ts s ∧
      (s.state.videos.find? "video").bind Video.videoUrl =
        some (getPublicUrl ⟨"bucket", none, "region"⟩ (outputKey "video")) ∧
      (∀ videoId row, s.state.videos.find? videoId = some row →
        (∀ url, row.videoUrl = some url →
          Rendered ⟨"bucket", none, "region"⟩ (Machine.answeredCalls ts) videoId url) ∧
        ∀ url, row.thumbnailUrl = some url → Depicted (Machine.answeredCalls ts) videoId url) ∧
      ∀ event, DomainEvent.completed event ∈ s.state.events →
        EventFrom ⟨"bucket", none, "region"⟩ (Machine.answeredCalls ts) event := by
  obtain ⟨ts, s, hrun, hacts, hobs⟩ := Run.exists_of_follow
    (system ⟨"bucket", none, "region"⟩).step ⟨World.empty, []⟩ storedActs
    (fun p ↦ (p.2.state.videos.find? "video").bind Video.videoUrl)
    (some (getPublicUrl ⟨"bucket", none, "region"⟩ (outputKey "video"))) (by decide +kernel)
  exact ⟨ts, s, hrun, hobs, urls_are_answers hrun
    fun t ht ↦ givesNoUrl_stored _ (hacts ▸ List.mem_map_of_mem ht)⟩

end VideoGen
