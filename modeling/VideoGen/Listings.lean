import Mathlib.Algebra.Order.Floor.Ring
import Mathlib.Data.Rat.Floor
import VideoGen.Controllers
import VideoGen.Lib.Paging

/-!
# Lists in pages

Each page of a list is a query of its own, sorted by a date alone.  Rows with
the same date stand in an order that the database chooses for every query.
-/

namespace VideoGen

/-! ## Queries -/

/-- `SELECT ... WHERE ... ORDER BY ... DESC OFFSET ... LIMIT ...` -/
structure SelectQuery (ρ : Type) where
  Where : ρ → Bool
  orderBy : ρ → ℕ
  skip : ℤ
  take : ℤ

/-- The rows and the number of all matching rows; a negative offset or limit is an error. -/
def SelectQuery.run {ρ : Type} (rows : List ρ) (plan : QueryPlan ρ ℕ) (q : SelectQuery ρ) :
    Except Thrown (List ρ × ℕ) :=
  let matching := rows.filter q.Where
  if q.skip < 0 ∨ q.take < 0 then .error (.instance .error "OFFSET must not be negative")
  else .ok (((plan.sort q.orderBy matching).drop q.skip.toNat).take q.take.toNat,
    matching.length)

/-! ## The services -/

structure PaginationMetaDto where
  total : ℕ
  page : ℤ
  limit : ℤ
  totalPages : ℤ
  hasNextPage : Bool
  hasPreviousPage : Bool

structure PaginatedVideosDto where
  items : List VideoResponseDto
  -- The source's `meta`.
  pagination : PaginationMetaDto

structure PaginatedFailedJobsDto where
  items : List FailedJobDto
  total : ℕ
  page : ℤ
  limit : ℤ

/-- `Math.ceil(total / limit)` -/
def mathCeil (total : ℕ) (limit : ℤ) : ℤ := ⌈(total : ℚ) / limit⌉

def Video.matches (userId : String) (status : Option VideoStatus) (video : Video) : Bool :=
  video.userId = userId && status.all fun status ↦ video.status = status

def findAllForUser (getManyAndCount : SelectQuery Video → Except Thrown (List Video × ℕ))
    (userId : String) (status : Option VideoStatus) (page limit : ℤ) :
    Except Thrown PaginatedVideosDto := do
  let (videos, total) ← getManyAndCount
    { Where := Video.matches userId status
      orderBy := Video.createdAt
      skip := (page - 1) * limit
      take := limit }
  let totalPages := mathCeil total limit
  pure
    { items := videos.map VideoResponseDto.from
      pagination :=
        { total := total
          page := page
          limit := limit
          totalPages := totalPages
          hasNextPage := page < totalPages
          hasPreviousPage := page > 1 } }

def listFailedJobs (findAndCount : SelectQuery FailedJob → Except Thrown (List FailedJob × ℕ))
    (page limit : ℤ) : Except Thrown PaginatedFailedJobsDto := do
  let (items, total) ← findAndCount
    { Where := fun _ ↦ true
      orderBy := FailedJob.failedAt
      skip := (page - 1) * limit
      take := limit }
  pure
    { items := items.map FailedJobDto.from
      total := total
      page := page
      limit := limit }

/-! ## Reading all pages -/

/-- The pages contain the items of all rows once, newest first, and none is too long. -/
structure ReadsAll {ρ ι : Type} (toItem : ρ → ι) (date : ρ → ℕ) (rows : List ρ) (limit n : ℕ)
    (pages : ℕ → List ι) : Prop where
  exactly : ∃ l, Ordered date rows l ∧ (List.range n).flatMap pages = l.map toItem
  small : ∀ k < n, (pages k).length ≤ limit

section Pages

variable {limit k n : ℕ} (hlimit : 1 ≤ limit)

include hlimit

theorem lt_mathCeil_iff (total : ℕ) :
    ((k : ℤ) < mathCeil total limit ↔ k * limit < total) := by
  have hpos : (0 : ℚ) < ((limit : ℤ) : ℚ) := by exact_mod_cast hlimit
  unfold mathCeil
  rw [Int.lt_ceil, lt_div_iff₀ hpos]
  constructor
  · intro h
    exact_mod_cast h
  · intro h
    exact_mod_cast h

theorem length_le_mathCeil (total : ℕ) : total ≤ (mathCeil total limit).toNat * limit := by
  by_contra hlt
  have hceil := (lt_mathCeil_iff hlimit total).mpr (Nat.not_le.mp hlt)
  omega

theorem run_select {ρ : Type} (rows : List ρ) (plan : QueryPlan ρ ℕ) (q : SelectQuery ρ)
    (hskip : q.skip = (k + 1 - 1 : ℤ) * limit) (htake : q.take = limit) :
    q.run rows plan = .ok (pageOf limit k (plan.sort q.orderBy (rows.filter q.Where)),
      (rows.filter q.Where).length) := by
  have hnat : q.skip = ((k * limit : ℕ) : ℤ) := by
    rw [hskip]
    push_cast
    ring
  have hok : ¬(q.skip < 0 ∨ q.take < 0) := by omega
  unfold SelectQuery.run pageOf
  simp only [if_neg hok]
  rw [hnat, htake, Int.toNat_natCast, Int.toNat_natCast]

/-- The pages that the requests return are all right for every choice of plans exactly if no
group of rows with the same date is split. -/
theorem readsAll_iff {ρ ι κ : Type} {rows : List ρ} (toItem : ρ → ι) (itemKey : ι → κ)
    {date : ρ → ℕ} {key : ρ → κ} (hkeys : (rows.map key).Nodup) (hitem : ∀ r, itemKey (toItem r) = key r)
    (hn : rows.length ≤ n * limit) :
    (∀ plans : ℕ → QueryPlan ρ ℕ, ReadsAll toItem date rows limit n fun k ↦
      (pageOf limit k ((plans k).sort date rows)).map toItem) ↔ Unsplit date limit rows := by
  constructor
  · intro hall
    refine unsplit_of_nodup hlimit hn fun plans ↦ ?_
    obtain ⟨l, hl, hpages⟩ := (hall plans).exactly
    rw [← List.map_flatMap] at hpages
    have hmap := congrArg (List.map itemKey) hpages
    rw [List.map_map, List.map_map] at hmap
    have hcomp : itemKey ∘ toItem = key := funext hitem
    rw [hcomp] at hmap
    have hnodup : (l.map key).Nodup := (hl.perm.map key).nodup_iff.mpr hkeys
    rw [← hmap] at hnodup
    exact hnodup.of_map
  · intro h plans
    refine ⟨⟨_, h.ordered_pagesOf hlimit (hkeys.of_map key) hn
      fun k ↦ (plans k).ordered date rows, ?_⟩, ?_⟩
    · exact List.map_flatMap.symm
    · intro k _
      rw [List.length_map]
      exact List.length_take_le _ _

theorem findAllForUser_run (rows : List Video) (plan : QueryPlan Video ℕ) (userId : String)
    (status : Option VideoStatus) (k : ℕ) :
    ∃ reply, findAllForUser (SelectQuery.run rows plan) userId status (k + 1) limit = .ok reply ∧
      reply.items = (pageOf limit k (plan.sort Video.createdAt
        (rows.filter (Video.matches userId status)))).map VideoResponseDto.from ∧
      (reply.pagination.hasNextPage = true ↔
        (k + 1) * limit < (rows.filter (Video.matches userId status)).length) := by
  unfold findAllForUser
  rw [run_select hlimit rows plan _ rfl rfl]
  refine ⟨_, rfl, rfl, ?_⟩
  have hnext := lt_mathCeil_iff (k := k + 1) hlimit
    (rows.filter (Video.matches userId status)).length
  rw [← hnext]
  simp

theorem listFailedJobs_run (rows : List FailedJob) (plan : QueryPlan FailedJob ℕ) (k : ℕ) :
    ∃ reply, listFailedJobs (SelectQuery.run rows plan) (k + 1) limit = .ok reply ∧
      reply.items = (pageOf limit k (plan.sort FailedJob.failedAt rows)).map
        FailedJobDto.from := by
  unfold listFailedJobs
  rw [run_select hlimit rows plan _ rfl rfl]
  refine ⟨_, rfl, ?_⟩
  simp

/-- The pages of both lists are right, whatever the queries make of equal dates, exactly if no
page boundary falls between two matching rows with the same date. -/
theorem paging_iff (w : World) :
    (∀ userId status,
      (∀ (plans : ℕ → QueryPlan Video ℕ) (replies : ℕ → PaginatedVideosDto),
        (∀ k : ℕ, findAllForUser (SelectQuery.run w.videos.rows (plans k)) userId status
          (k + 1) limit = .ok (replies k)) →
        ReadsAll VideoResponseDto.from Video.createdAt
            (w.videos.rows.filter (Video.matches userId status)) limit
            (mathCeil (w.videos.rows.filter (Video.matches userId status)).length limit).toNat
            (fun k ↦ (replies k).items) ∧
          ∀ k, (replies k).pagination.hasNextPage = true ↔
            (k + 1) * limit < (w.videos.rows.filter (Video.matches userId status)).length) ↔
      Unsplit Video.createdAt limit (w.videos.rows.filter (Video.matches userId status))) ∧
    ((∀ (plans : ℕ → QueryPlan FailedJob ℕ) (replies : ℕ → PaginatedFailedJobsDto),
        (∀ k : ℕ, listFailedJobs (SelectQuery.run w.failedJobs.rows (plans k)) (k + 1) limit =
          .ok (replies k)) →
        ReadsAll FailedJobDto.from FailedJob.failedAt w.failedJobs.rows limit
          (mathCeil w.failedJobs.rows.length limit).toNat fun k ↦ (replies k).items) ↔
      Unsplit FailedJob.failedAt limit w.failedJobs.rows) := by
  constructor
  · intro userId status
    have hkeys : ((w.videos.rows.filter (Video.matches userId status)).map Video.id).Nodup :=
      w.videos.nodup.sublist (List.filter_sublist.map _)
    rw [← readsAll_iff hlimit VideoResponseDto.from VideoResponseDto.id hkeys (fun _ ↦ rfl)
      (length_le_mathCeil hlimit _)]
    constructor
    · intro hall plans
      choose replies hreplies hitems hnext using fun k ↦
        findAllForUser_run hlimit w.videos.rows (plans k) userId status k
      have hread := (hall plans replies hreplies).1
      rw [funext hitems] at hread
      exact hread
    · intro hall plans replies hreplies
      choose replies' hok hitems hnext using fun k ↦
        findAllForUser_run hlimit w.videos.rows (plans k) userId status k
      obtain rfl : replies = replies' := funext fun k ↦
        Except.ok.inj ((hreplies k).symm.trans (hok k))
      refine ⟨?_, hnext⟩
      rw [funext hitems]
      exact hall plans
  · rw [← readsAll_iff hlimit FailedJobDto.from FailedJobDto.id w.failedJobs.nodup
      (fun _ ↦ rfl) (length_le_mathCeil hlimit _)]
    constructor
    · intro hall plans
      choose replies hreplies hitems using fun k ↦
        listFailedJobs_run hlimit w.failedJobs.rows (plans k) k
      have hread := hall plans replies hreplies
      rw [funext hitems] at hread
      exact hread
    · intro hall plans replies hreplies
      choose replies' hok hitems using fun k ↦
        listFailedJobs_run hlimit w.failedJobs.rows (plans k) k
      obtain rfl : replies = replies' := funext fun k ↦
        Except.ok.inj ((hreplies k).symm.trans (hok k))
      rw [funext hitems]
      exact hall plans

end Pages

/-! ## Two rows -/

def datedVideo (id : String) (createdAt : ℕ) : Video :=
  Video.create id { userId := some "user" } createdAt

def twoVideos (createdAt createdAt' : ℕ) : World :=
  { World.empty with
    videos := ⟨[datedVideo "first" createdAt, datedVideo "second" createdAt'],
      (by decide : ["first", "second"].Nodup)⟩ }

theorem twoVideos_filter (createdAt createdAt' : ℕ) :
    (twoVideos createdAt createdAt').videos.rows.filter (Video.matches "user" none) =
      [datedVideo "first" createdAt, datedVideo "second" createdAt'] := by
  simp [twoVideos, Video.matches, datedVideo, Video.create]

/-- With different dates the pages are right. -/
theorem paging_two_dates : ∃ (plans : ℕ → QueryPlan Video ℕ) (replies : ℕ → PaginatedVideosDto),
    (∀ k : ℕ, findAllForUser (SelectQuery.run (twoVideos 1 2).videos.rows (plans k)) "user" none
      (k + 1) (1 : ℕ) = .ok (replies k)) ∧
    ReadsAll VideoResponseDto.from Video.createdAt
      ((twoVideos 1 2).videos.rows.filter (Video.matches "user" none)) 1
      (mathCeil ((twoVideos 1 2).videos.rows.filter (Video.matches "user" none)).length
        (1 : ℕ)).toNat fun k ↦ (replies k).items := by
  have hlimit : 1 ≤ 1 := le_refl 1
  choose replies hok hitems hnext using fun k ↦
    findAllForUser_run hlimit (twoVideos 1 2).videos.rows .stable "user" none k
  refine ⟨fun _ ↦ .stable, replies, hok, ?_⟩
  refine (((paging_iff hlimit (twoVideos 1 2)).1 "user" none).mpr ?_ _ replies hok).1
  intro video hvideo m hm
  rw [twoVideos_filter] at hvideo hm
  rcases List.mem_cons.mp hvideo with rfl | hvideo
  · have hcounts : 1 < m * 1 ∧ m * 1 < 2 := hm
    omega
  · obtain rfl := List.mem_singleton.mp hvideo
    have hcounts : 0 < m * 1 ∧ m * 1 < 1 := hm
    omega

/-- With the same date each page can show the same video, and the other one is on none. -/
theorem page_repeats_video : ∃ (plans : ℕ → QueryPlan Video ℕ)
    (replies : ℕ → PaginatedVideosDto),
    (∀ k : ℕ, findAllForUser (SelectQuery.run (twoVideos 1 1).videos.rows (plans k)) "user" none
      (k + 1) (1 : ℕ) = .ok (replies k)) ∧
    ¬ReadsAll VideoResponseDto.from Video.createdAt
      ((twoVideos 1 1).videos.rows.filter (Video.matches "user" none)) 1
      (mathCeil ((twoVideos 1 1).videos.rows.filter (Video.matches "user" none)).length
        (1 : ℕ)).toNat fun k ↦ (replies k).items := by
  have hlimit : 1 ≤ 1 := le_refl 1
  have hfirst : Ordered Video.createdAt [datedVideo "first" 1, datedVideo "second" 1]
      [datedVideo "first" 1, datedVideo "second" 1] := ⟨.refl _, by decide⟩
  have hsecond : Ordered Video.createdAt [datedVideo "first" 1, datedVideo "second" 1]
      [datedVideo "second" 1, datedVideo "first" 1] := ⟨.swap _ _ _, by decide⟩
  let plans (k : ℕ) : QueryPlan Video ℕ := if k = 0 then .choosing hfirst else .choosing hsecond
  choose replies hok hitems hnext using fun k ↦
    findAllForUser_run hlimit (twoVideos 1 1).videos.rows (plans k) "user" none k
  refine ⟨plans, replies, hok, fun hreads ↦ ?_⟩
  obtain ⟨l, hl, hpages⟩ := hreads.exactly
  rw [twoVideos_filter] at hl hpages
  have hzero : (replies 0).items = [VideoResponseDto.from (datedVideo "first" 1)] := by
    rw [hitems, twoVideos_filter]
    simp only [plans, if_true, QueryPlan.sort_choosing]
    rfl
  have hone : (replies 1).items = [VideoResponseDto.from (datedVideo "first" 1)] := by
    rw [hitems, twoVideos_filter]
    simp only [plans, one_ne_zero, if_false, QueryPlan.sort_choosing]
    rfl
  have hn : (mathCeil 2 (1 : ℕ)).toNat = 2 := by
    norm_num [mathCeil]
    rfl
  change (List.range (mathCeil 2 (1 : ℕ)).toNat).flatMap _ = _ at hpages
  rw [hn] at hpages
  have hboth : l.map Video.id = ["first", "first"] := by
    have hids := congrArg (List.map VideoResponseDto.id) hpages
    simp only [List.range_succ, List.range_zero, List.nil_append, List.flatMap_append,
      List.flatMap_singleton, hzero, hone, List.map_map, List.map_append] at hids
    exact hids.symm
  have hperm := hl.perm.map Video.id
  rw [hboth] at hperm
  exact absurd (hperm.nodup_iff.mpr (by decide)) (by decide)

end VideoGen
