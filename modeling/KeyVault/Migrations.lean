import KeyVault.DbMigrate

/-!
# Runs of migrations

Whatever runs at the same time and wherever it stops, the committed files are a
prefix of the sorted list: a runner commits a file only after it has seen all the
earlier ones committed, and the primary key stops the second commit of a file.
-/

namespace Migrations

open JsValue Programs Interleaving Tables Utf16 DbMigrate

/-- The order of a listing does not matter. -/
theorem migrationsOf_perm {entries entries' : List String} (h : entries.Perm entries') :
    migrationsOf entries = migrationsOf entries' := by
  have : Std.Total before := ⟨fun a b => le_total (utf16 a) (utf16 b)⟩
  have : IsTrans String before := ⟨fun a b c hab hbc => le_trans hab hbc⟩
  have hperm : (migrationsOf entries).Perm (migrationsOf entries') :=
    (List.perm_insertionSort _ _).trans ((h.filter _).trans (List.perm_insertionSort _ _).symm)
  refine List.Perm.eq_of_pairwise (fun a b _ _ hab hba => ?_)
    (List.pairwise_insertionSort before _) (List.pairwise_insertionSort before _) hperm
  exact utf16_injective (le_antisymm hab hba)

/-- The sorted migration files. -/
def files (dir : Option Directory) : List String :=
  dir.elim [] (fun dir => migrationsOf (dir.listing 0))

theorem migrationsOf_listing (dir : Directory) (i : ThreadId) :
    migrationsOf (dir.listing i) = files (some dir) := migrationsOf_perm (dir.same i 0)

theorem files_nodup (dir : Option Directory) : (files dir).Nodup := by
  cases dir with
  | none => exact List.nodup_nil
  | some dir =>
    exact (List.perm_insertionSort _ _).nodup_iff.mpr ((dir.distinct 0).filter _)

section

variable {done rest committed : List String} {file : String}

/-- Between two prefixes without the next file there is nothing. -/
theorem eq_of_prefixes (hdone : done <+: committed)
    (hcommitted : committed <+: done ++ file :: rest)
    (hnew : file ∉ committed) : committed = done := by
  obtain ⟨more, rfl⟩ := hdone
  cases more with
  | nil => exact List.append_nil done
  | cons f more =>
    have hmore := (List.prefix_append_right_inj done).mp hcommitted
    have hf : f = file := (List.cons_prefix_cons.mp hmore).1
    exact absurd (List.mem_append_right _ (hf ▸ List.mem_cons_self)) hnew

theorem prefix_of_mem (hdone : done <+: committed) (hcommitted : committed <+: done ++ file :: rest)
    (hnodup : (done ++ file :: rest).Nodup) (hmem : file ∈ committed) :
    done ++ [file] <+: committed := by
  obtain ⟨more, rfl⟩ := hdone
  cases more with
  | nil =>
    rw [List.append_nil] at hmem
    exact absurd rfl ((List.nodup_append.mp hnodup).2.2 file hmem file List.mem_cons_self)
  | cons f more =>
    have hmore := (List.prefix_append_right_inj done).mp hcommitted
    have hf : f = file := (List.cons_prefix_cons.mp hmore).1
    subst hf
    exact (List.prefix_append_right_inj done).mpr (List.cons_prefix_cons.mpr ⟨rfl, List.nil_prefix⟩)

end

variable {D : Type} {sql : String → Database D → Database D} {dir : Option Directory} {data : D}
  {i : ThreadId}

def contentOf (dir : Option Directory) (file : String) : String :=
  dir.elim "" (fun dir => dir.content file)

/-- The transaction of a file. -/
def workOf (dir : Option Directory) (file : String) : List Work :=
  [.sql file (contentOf dir file), .version file]

/-- The SQL of the files leaves `schema_migrations` alone. -/
def Separate (sql : String → Database D → Database D) (dir : Option Directory) : Prop :=
  ∀ file ∈ files dir, ∀ db, (sql (contentOf dir file) db).versions = db.versions

def migrate (sql : String → Database D → Database D) (dir : Option Directory) (db : Database D)
    (file : String) : Database D :=
  match replay sql (workOf dir file) db with
  | .ok db' => db'
  | .error _ => db

/-- The database that the committed files make, one after the other. -/
def built (sql : String → Database D → Database D) (dir : Option Directory) (data : D)
    (committed : List String) : Database D :=
  committed.foldl (migrate sql dir) ⟨data, some Table.empty⟩

/-- The committed files are the first ones of the list, and exactly they are recorded. -/
structure Consistent (sql : String → Database D → Database D) (dir : Option Directory) (data : D)
    (w : World D) : Prop where
  ordered : w.committed <+: files dir
  recorded : (w.db = ⟨data, none⟩ ∧ w.committed = []) ∨
    ∃ versions, w.db.versions = some versions ∧ versions.rows = w.committed ∧
      w.db = built sql dir data w.committed

/-- The table of versions exists. -/
def Created (w : World D) : Prop := w.db.versions.isSome = true

/-- Committed files stay committed, and each runner has its own session. -/
def protocol (sql : String → Database D → Database D) (dir : Option Directory) (data : D) :
    Protocol (World D) where
  inv := Consistent sql dir data
  rely i w w' := w.committed <+: w'.committed ∧ (Created w → Created w') ∧
    w'.sessions i = w.sessions i
  guar i w w' := w.committed <+: w'.committed ∧ (Created w → Created w') ∧
    ∀ j, j ≠ i → w'.sessions j = w.sessions j
  rely_refl _ _ := ⟨List.prefix_rfl, id, rfl⟩
  rely_trans _ _ _ _ h h' := ⟨h.1.trans h'.1, h'.2.1 ∘ h.2.1, h'.2.2.trans h.2.2⟩
  guar_rely _ j _ _ hij h := ⟨h.1, h.2.1, h.2.2 j (Ne.symm hij)⟩

/-- Nothing but the session of the runner has changed. -/
def Still (i : ThreadId) (w w' : World D) : Prop :=
  w'.db = w.db ∧ w'.committed = w.committed ∧ ∀ j, j ≠ i → w'.sessions j = w.sessions j

theorem still_refl (w : World D) : Still i w w := ⟨rfl, rfl, fun _ _ => rfl⟩

theorem still_setSession (w : World D) (t : Option Transaction) : Still i w (setSession w i t) :=
  ⟨rfl, rfl, fun _ hj => Function.update_of_ne hj _ _⟩

theorem Still.keeps {w w' : World D} (h : Still i w w') (hinv : Consistent sql dir data w) :
    Consistent sql dir data w' ∧ (protocol sql dir data).guar i w w' := by
  obtain ⟨hdb, hcommitted, hsessions⟩ := h
  refine ⟨⟨hcommitted ▸ hinv.ordered, ?_⟩, hcommitted ▸ List.prefix_rfl, ?_, hsessions⟩
  · rw [hdb, hcommitted]
    exact hinv.recorded
  · unfold Created
    rw [hdb]
    exact id

/-- Calls that touch nothing but the session, whatever it is. -/
def outside : Call → Bool
  | .createTable => false
  | .query _ _ => false
  | .insertVersion _ => false
  | .commit => false
  | _ => true

theorem outside_still {c : Call} (hc : outside c = true) (t : Turn) (w : World D) :
    Still i w (perform sql dir i t c w).2 := by
  have heffect : Still i w (effect sql dir i c w).2 := by
    cases c <;> first | exact still_refl w | exact still_setSession w _ | cases hc
  have hfailure : Still i w (afterFailure i w c) := by
    cases c <;> first | exact still_refl w | cases hc
  unfold perform
  cases t.fails with
  | none => exact heffect
  | some message =>
    dsimp only
    split
    · exact heffect
    · exact hfailure

/-- A statement inside a transaction touches nothing else. -/
theorem runWork_still {w : World D} (work : Work) (h : w.sessions i ≠ none) :
    Still i w (runWork sql i work w).2 := by
  unfold runWork
  cases hsession : w.sessions i with
  | none => exact absurd hsession h
  | some t =>
    cases t with
    | aborted => exact still_refl w
    | live done =>
      dsimp only
      cases replay sql (done ++ [work]) w.db with
      | ok db => exact still_setSession w _
      | error message => exact still_setSession w _

theorem createTable_keeps (t : Turn) {w : World D} (hinv : Consistent sql dir data w) :
    Consistent sql dir data (perform sql dir i t .createTable w).2 ∧
      (protocol sql dir data).guar i w (perform sql dir i t .createTable w).2 := by
  have heffect : Consistent sql dir data (effect sql dir i .createTable w).2 ∧
      (protocol sql dir data).guar i w (effect sql dir i .createTable w).2 := by
    refine ⟨⟨hinv.ordered, Or.inr ?_⟩, List.prefix_rfl, fun _ => rfl, fun _ _ => rfl⟩
    rcases hinv.recorded with ⟨hdb, hnil⟩ | ⟨versions, hversions, hrows, hdb⟩
    · refine ⟨Table.empty, ?_, ?_, ?_⟩
      · simp only [effect, hdb, Option.getD_none]
      · simp only [effect, hnil, Table.empty]
      · simp only [effect, hdb, hnil, Option.getD_none, built, List.foldl_nil]
    · have hsame : (effect sql dir i .createTable w).2.db = w.db := by
        simp only [effect]
        rw [hversions, Option.getD_some, ← hversions]
      rw [hsame]
      exact ⟨versions, hversions, hrows, hdb⟩
  unfold perform
  cases t.fails with
  | none => exact heffect
  | some message =>
    dsimp only
    split
    · exact heffect
    · exact (still_refl w).keeps hinv

/-- A file whose predecessors are committed is committed once, and at the end of the list. -/
theorem replay_keeps (hsep : Separate sql dir) {done rest : List String} {file : String}
    (hfiles : files dir = done ++ file :: rest) {w : World D} (hinv : Consistent sql dir data w)
    (hdone : done <+: w.committed) (hcreated : Created w) {db : Database D}
    (hreplay : replay sql (workOf dir file) w.db = .ok db)
    (sessions : ThreadId → Option Transaction) :
    Consistent sql dir data ⟨db, sessions, w.committed ++ [file]⟩ ∧ w.committed = done ∧
      db.versions.isSome = true := by
  have hmem : file ∈ files dir := by
    rw [hfiles]
    exact List.mem_append_right _ List.mem_cons_self
  obtain ⟨versions, hversions, hrows, hdb⟩ :
      ∃ versions, w.db.versions = some versions ∧ versions.rows = w.committed ∧
        w.db = built sql dir data w.committed := by
    rcases hinv.recorded with ⟨hdb, -⟩ | h
    · unfold Created at hcreated
      rw [hdb] at hcreated
      cases hcreated
    · exact h
  have hkept : (sql (contentOf dir file) w.db).versions = some versions :=
    (hsep file hmem w.db).trans hversions
  have hmigrate : migrate sql dir w.db file = db := by simp only [migrate, hreplay]
  simp only [replay, workOf, List.foldlM_cons, List.foldlM_nil, execute, bind, Except.bind,
    hkept, pure, Except.pure] at hreplay
  cases hfind : versions.find file with
  | some row =>
    rw [hfind] at hreplay
    cases hreplay
  | none =>
    rw [hfind] at hreplay
    cases hreplay
    have hnew : file ∉ w.committed := by
      have hnot := (Table.find_eq_none_iff versions file).mp hfind
      rwa [List.map_id, hrows] at hnot
    have hall : w.committed = done := eq_of_prefixes hdone (hfiles ▸ hinv.ordered) hnew
    refine ⟨⟨?_, Or.inr ⟨versions.insert file, rfl, ?_, ?_⟩⟩, hall, rfl⟩
    · show w.committed ++ [file] <+: files dir
      rw [hfiles, hall]
      exact (List.prefix_append_right_inj done).mpr
        (List.cons_prefix_cons.mpr ⟨rfl, List.nil_prefix⟩)
    · show (versions.insert file).rows = w.committed ++ [file]
      rw [Table.insert_rows (t := versions) hfind, hrows]
    · show _ = built sql dir data (w.committed ++ [file])
      rw [built, List.foldl_append]
      show _ = migrate sql dir (built sql dir data w.committed) file
      rw [← hdb, hmigrate]

/-- The COMMIT of a file whose predecessors are committed. -/
theorem commit_keeps (hsep : Separate sql dir) {done rest : List String} {file : String}
    (hfiles : files dir = done ++ file :: rest) (t : Turn) {w : World D}
    (hinv : Consistent sql dir data w) (hdone : done <+: w.committed) (hcreated : Created w)
    (hsession : w.sessions i = some (.live (workOf dir file))) :
    Consistent sql dir data (perform sql dir i t .commit w).2 ∧
      (protocol sql dir data).guar i w (perform sql dir i t .commit w).2 ∧
      ((perform sql dir i t .commit w).1 = .ok () →
        done ++ [file] <+: (perform sql dir i t .commit w).2.committed ∧
          Created (perform sql dir i t .commit w).2) := by
  have heffect : Consistent sql dir data (effect sql dir i .commit w).2 ∧
      (protocol sql dir data).guar i w (effect sql dir i .commit w).2 ∧
      ((effect sql dir i .commit w).1 = .ok () →
        done ++ [file] <+: (effect sql dir i .commit w).2.committed ∧
          Created (effect sql dir i .commit w).2) := by
    simp only [effect, hsession, commitWork]
    cases hreplay : replay sql (workOf dir file) w.db with
    | error message =>
      obtain ⟨hkeep, hguar⟩ := (still_setSession (i := i) w none).keeps hinv
      exact ⟨hkeep, hguar, by rintro ⟨⟩⟩
    | ok db =>
      obtain ⟨hkeep, hall, hsome⟩ := replay_keeps hsep hfiles hinv hdone hcreated hreplay
        (setSession w i none).sessions
      refine ⟨hkeep, ⟨List.prefix_append _ _, fun _ => hsome, (still_setSession w none).2.2⟩,
        fun _ => ⟨?_, hsome⟩⟩
      show done ++ [file] <+: w.committed ++ [file]
      rw [hall]
  unfold perform
  cases t.fails with
  | none => exact heffect
  | some message =>
    dsimp only
    refine ⟨?_, ?_, by rintro ⟨⟩⟩
    · split
      · exact heffect.1
      · exact ((still_setSession (i := i) w none).keeps hinv).1
    · split
      · exact heffect.2.1
      · exact ((still_setSession (i := i) w none).keeps hinv).2

theorem perform_cases (sql : String → Database D → Database D) (dir : Option Directory)
    (i : ThreadId) (t : Turn) (c : Call) (w : World D) :
    perform sql dir i t c w = effect sql dir i c w ∨
      ∃ message, (perform sql dir i t c w).1 = failed message c := by
  unfold perform
  cases t.fails with
  | none => exact Or.inl rfl
  | some message => exact Or.inr ⟨message, rfl⟩

/-- The statements of a file. -/
def inside : Call → Bool
  | .query _ _ => true
  | .insertVersion _ => true
  | _ => false

theorem inside_still {c : Call} (hc : inside c = true) (t : Turn) {w : World D}
    (h : w.sessions i ≠ none) : Still i w (perform sql dir i t c w).2 := by
  have heffect : Still i w (effect sql dir i c w).2 := by
    cases c <;> first | exact runWork_still _ h | cases hc
  have hfailure : Still i w (afterFailure i w c) := by
    cases c <;> first | exact still_setSession w _ | cases hc
  unfold perform
  cases t.fails with
  | none => exact heffect
  | some message =>
    dsimp only
    split
    · exact heffect
    · exact hfailure

theorem runWork_session {w : World D} {done : List Work} (work : Work)
    (h : w.sessions i = some (.live done)) (hok : (runWork sql i work w).1 = .ok ()) :
    (runWork sql i work w).2.sessions i = some (.live (done ++ [work])) := by
  simp only [runWork, h] at hok ⊢
  cases hreplay : replay sql (done ++ [work]) w.db with
  | ok db => exact Function.update_self ..
  | error message =>
    rw [hreplay] at hok
    cases hok

/-- These files are committed, and the table exists. -/
def Ready (done : List String) (w : World D) : Prop := done <+: w.committed ∧ Created w

theorem Ready.move {done : List String} {w w' : World D} (h : Ready done w)
    (hmove : (protocol sql dir data).rely i w w') : Ready done w' :=
  ⟨h.1.trans hmove.1, hmove.2.1 h.2⟩

theorem Ready.still {done : List String} {w w' : World D} (h : Ready done w)
    (hstill : Still i w w') : Ready done w' := by
  unfold Ready Created
  rw [hstill.1, hstill.2.1]
  exact h

section

variable {β : Type} {Q : Except String β → World D → Prop} {w : World D}

theorem safe_outside {c : Call} {f : Ans c → Runner β} (hc : outside c = true)
    (h : ∀ w', (protocol sql dir data).rely i w w' → Consistent sql dir data w' → ∀ t,
      Safe (protocol sql dir data) (perform sql dir) i Q (f (perform sql dir i t c w').1)
        (perform sql dir i t c w').2) :
    Safe (protocol sql dir data) (perform sql dir) i Q (ask c >>= f) w := by
  refine Safe.invoke fun w' hmove hinv t => ?_
  have hstill : Still i w' (perform sql dir i t c w').2 := outside_still hc t w'
  obtain ⟨hkeep, hguar⟩ := hstill.keeps hinv
  exact ⟨hkeep, hguar, h w' hmove hinv t⟩

end

variable {w : World D}

/-- What a runner has come to is only promised if it has not thrown. -/
abbrev SafeOk {α : Type} (sql : String → Database D → Database D) (dir : Option Directory)
    (data : D) (i : ThreadId) (R : α → World D → Prop) (p : Runner α) (w : World D) : Prop :=
  Safe (protocol sql dir data) (perform sql dir) i (fun r w => ∀ a, r = .ok a → R a w) p w

theorem safe_thrown {α : Type} {R : α → World D → Prop} (e : String) :
    SafeOk sql dir data i R (.done (.error e)) w := by
  rintro w' - - a ⟨⟩

theorem giveUp_safe {R : Unit → World D → Prop} (file message : String) :
    SafeOk sql dir data i R (giveUp file message) w := by
  refine safe_outside rfl fun w₁ _ _ t₁ => ?_
  exact safe_outside rfl fun w₂ _ _ t₂ => safe_thrown _

/-- A statement of the file inside its transaction. -/
theorem safe_inside {α : Type} {R : α → World D → Prop} {c : Call} {f : Ans c → Runner α}
    (hc : inside c = true) (hsession : w.sessions i ≠ none)
    (h : ∀ w', (protocol sql dir data).rely i w w' → ∀ t, Still i w' (perform sql dir i t c w').2 →
      SafeOk sql dir data i R (f (perform sql dir i t c w').1) (perform sql dir i t c w').2) :
    SafeOk sql dir data i R (ask c >>= f) w := by
  refine Safe.invoke fun w' hmove hinv t => ?_
  have hstill : Still i w' (perform sql dir i t c w').2 :=
    inside_still hc t (by rw [hmove.2.2]; exact hsession)
  obtain ⟨hkeep, hguar⟩ := hstill.keeps hinv
  exact ⟨hkeep, hguar, h w' hmove t hstill⟩

theorem transaction_safe (hsep : Separate sql dir) {done rest : List String} {file : String}
    (hfiles : files dir = done ++ file :: rest) (hready : Ready done w) :
    SafeOk sql dir data i (fun _ w => Ready (done ++ [file]) w)
      (transaction file (contentOf dir file)) w := by
  refine safe_outside rfl fun w₁ hmove₁ _ t₁ =>
    Safe.lift (fun _ hbegun => ?_) fun e _ => safe_thrown e
  have hready₁ : Ready done (perform sql dir i t₁ .begin w₁).2 :=
    (hready.move hmove₁).still (outside_still rfl t₁ w₁)
  have hsession₁ : (perform sql dir i t₁ .begin w₁).2.sessions i = some (.live []) := by
    rcases perform_cases sql dir i t₁ .begin w₁ with hp | ⟨message, hp⟩
    · rw [hp]
      exact Function.update_self ..
    · rw [hp] at hbegun
      cases hbegun
  refine safe_inside rfl (by rw [hsession₁]; exact Option.some_ne_none _) fun w₂ hmove₂
    t₂ hstill₂ => ?_
  refine Safe.lift (fun _ hqueried => ?_) fun e _ => safe_thrown e
  have hready₂ := (hready₁.move hmove₂).still hstill₂
  have hsession₂ : (perform sql dir i t₂ (.query file (contentOf dir file)) w₂).2.sessions i =
      some (.live [.sql file (contentOf dir file)]) := by
    rcases perform_cases sql dir i t₂ (.query file (contentOf dir file)) w₂ with hp | ⟨message, hp⟩
    · rw [hp] at hqueried ⊢
      exact runWork_session _ (hmove₂.2.2.trans hsession₁) hqueried
    · rw [hp] at hqueried
      cases hqueried
  refine safe_inside rfl (by rw [hsession₂]; exact Option.some_ne_none _) fun w₃ hmove₃
    t₃ hstill₃ => ?_
  refine Safe.lift (fun _ hinserted => ?_) fun e _ => safe_thrown e
  have hready₃ := (hready₂.move hmove₃).still hstill₃
  have hsession₃ : (perform sql dir i t₃ (.insertVersion file) w₃).2.sessions i =
      some (.live (workOf dir file)) := by
    rcases perform_cases sql dir i t₃ (.insertVersion file) w₃ with hp | ⟨message, hp⟩
    · rw [hp] at hinserted ⊢
      exact runWork_session _ (hmove₃.2.2.trans hsession₂) hinserted
    · rw [hp] at hinserted
      cases hinserted
  refine Safe.invoke fun w₄ hmove₄ hinv₄ t₄ => ?_
  have hready₄ := hready₃.move hmove₄
  obtain ⟨hkeep, hguar, hcommitted⟩ := commit_keeps hsep hfiles t₄ hinv₄ hready₄.1 hready₄.2
    (hmove₄.2.2.trans hsession₃)
  refine ⟨hkeep, hguar, fun w₅ hmove₅ _ a hdone => ?_⟩
  cases a
  have hready₅ : Ready (done ++ [file]) _ := hcommitted hdone
  exact hready₅.move hmove₅

theorem applyFile_safe (data : D) (hsep : Separate sql dir)
    {done rest : List String} {file : String}
    (hfiles : files dir = done ++ file :: rest) (hready : Ready done w) :
    SafeOk sql dir data i (fun _ w => Ready (done ++ [file]) w) (applyFile file) w := by
  refine safe_outside rfl fun w₁ hmove₁ _ t₁ =>
    Safe.lift (fun text hread => ?_) fun e _ => safe_thrown e
  have hready₁ : Ready done (perform sql dir i t₁ (.readFile file) w₁).2 :=
    (hready.move hmove₁).still (outside_still rfl t₁ w₁)
  obtain rfl : text = contentOf dir file := by
    rcases perform_cases sql dir i t₁ (.readFile file) w₁ with hp | ⟨message, hp⟩
    · rw [hp] at hread
      cases dir with
      | none => cases hread
      | some dir => exact (Except.ok.inj hread).symm
    · rw [hp] at hread
      cases hread
  refine safe_outside rfl fun w₂ hmove₂ _ t₂ => Safe.lift (fun _ _ => ?_) fun e _ => safe_thrown e
  have hready₂ : Ready done (perform sql dir i t₂ .connect w₂).2 :=
    (hready₁.move hmove₂).still (outside_still rfl t₂ w₂)
  refine Safe.tryCatch ((transaction_safe hsep hfiles hready₂).mono fun r s _ hok => ?_)
  cases r with
  | ok a => exact hok
  | error message => exact giveUp_safe file message

/-- The loop: `done` has been passed, `rest` is still to do. -/
theorem applyAll_safe (data : D) (hsep : Separate sql dir) {already : List String}
    {rest done : List String}
    (hfiles : files dir = done ++ rest) (hready : Ready done w)
    (halready : ∀ file ∈ already, file ∈ w.committed) (applied : List String) :
    SafeOk sql dir data i (fun result w => w.committed = files dir ∧
      result = applied ++ rest.filter (fun file => !already.contains file))
      (applyAll already rest applied) w := by
  induction rest generalizing done applied w with
  | nil =>
    rintro w' hmove hinv result hresult
    cases hresult
    rw [List.append_nil] at hfiles
    refine ⟨hinv.ordered.eq_of_length_le ?_, by simp⟩
    rw [hfiles]
    exact (hready.move hmove).1.length_le
  | cons file rest ih =>
    have hnext : files dir = (done ++ [file]) ++ rest := by simpa using hfiles
    unfold applyAll
    by_cases hmem : already.contains file = true
    · rw [if_pos hmem]
      have hfilter : (file :: rest).filter (fun file => !already.contains file) =
          rest.filter (fun file => !already.contains file) := by
        rw [List.filter_cons, hmem]
        rfl
      rw [hfilter]
      refine Safe.of_moves fun w' hmove hinv => ?_
      have hready' := hready.move hmove
      have hcommitted : file ∈ w'.committed :=
        hmove.1.subset (halready file (List.contains_iff_mem.mp hmem))
      refine ih hnext ⟨?_, hready'.2⟩ (fun f hf => hmove.1.subset (halready f hf)) applied
      exact prefix_of_mem hready'.1 (hfiles ▸ hinv.ordered) (hfiles ▸ files_nodup dir) hcommitted
    · rw [if_neg hmem]
      have hfilter : applied ++ (file :: rest).filter (fun file => !already.contains file) =
          (applied ++ [file]) ++ rest.filter (fun file => !already.contains file) := by
        rw [List.filter_cons, Bool.eq_false_iff.mpr hmem]
        simp
      rw [hfilter]
      have hkeep := (applyFile_safe (i := i) data hsep hfiles hready).keep
        (R := fun w' => w.committed <+: w'.committed)
        (fun _ _ hmove h => h.trans hmove.1) (fun _ _ hguar h => h.trans hguar.1) List.prefix_rfl
      refine Safe.bind (hkeep.mono fun r s _ hr => ?_)
      cases r with
      | ok a => exact ih hnext (hr.1 a rfl) (fun f hf => hr.2.subset (halready f hf)) _
      | error e => exact safe_thrown e

theorem Consistent.rows (hinv : Consistent sql dir data w) {versions : Versions}
    (h : w.db.versions = some versions) : versions.rows = w.committed := by
  rcases hinv.recorded with ⟨hdb, -⟩ | ⟨versions', hversions, hrows, -⟩
  · rw [hdb] at h
    cases h
  · rw [hversions] at h
    cases h
    exact hrows

theorem Consistent.complete {w' : World D} (hinv : Consistent sql dir data w')
    (hgrown : w.committed <+: w'.committed) (h : w.committed = files dir) :
    w'.committed = files dir :=
  hinv.ordered.eq_of_length_le (h ▸ hgrown.length_le)

/-- A normal end: every file is committed, and a run that found it so has applied nothing. -/
def Ended (dir : Option Directory) (w : World D) (summary : Summary) (w' : World D) : Prop :=
  w'.committed = files dir ∧ (w.committed = files dir → summary = ⟨[], (files dir).length⟩)

theorem applyPending_safe (hsep : Separate sql dir) :
    SafeOk sql dir data i (Ended dir w) (applyPending (files dir)) w := by
  refine Safe.invoke fun w₁ hmove₁ hinv₁ t₁ => ?_
  obtain ⟨hkeep, hguar⟩ := createTable_keeps t₁ hinv₁
  refine ⟨hkeep, hguar, Safe.lift (fun _ hcreated => ?_) fun e _ => safe_thrown e⟩
  have hready₁ : Ready [] (perform sql dir i t₁ .createTable w₁).2 := by
    refine ⟨List.nil_prefix, ?_⟩
    rcases perform_cases sql dir i t₁ .createTable w₁ with hp | ⟨message, hp⟩
    · rw [hp]
      exact rfl
    · rw [hp] at hcreated
      cases hcreated
  refine safe_outside rfl fun w₂ hmove₂ hinv₂ t₂ =>
    Safe.lift (fun already hread => ?_) fun e _ => safe_thrown e
  have hready₂ : Ready [] w₂ := hready₁.move hmove₂
  have hstill : Still i w₂ (perform sql dir i t₂ .selectVersions w₂).2 := outside_still rfl t₂ w₂
  obtain rfl : already = w₂.committed := by
    rcases perform_cases sql dir i t₂ .selectVersions w₂ with hp | ⟨message, hp⟩
    · rw [hp] at hread
      simp only [effect] at hread
      cases hversions : w₂.db.versions with
      | none =>
        rw [hversions] at hread
        cases hread
      | some versions =>
        rw [hversions] at hread
        cases hread
        exact hinv₂.rows hversions
    · rw [hp] at hread
      cases hread
  have hloop := applyAll_safe (i := i) data hsep (List.nil_append (files dir)).symm
    (hready₂.still hstill) (fun file hfile => by rw [hstill.2.1]; exact hfile) []
  refine Safe.bind (hloop.mono fun r s _ hr => ?_)
  cases r with
  | error e => exact safe_thrown e
  | ok applied =>
    obtain ⟨hall, happlied⟩ := hr applied rfl
    rintro s' hmove hinv summary hsummary
    cases hsummary
    refine ⟨hinv.complete hmove.1 hall, fun hcomplete => ?_⟩
    have hcomplete₂ : w₂.committed = files dir :=
      hinv₂.complete ((hmove₁.1.trans hguar.1).trans hmove₂.1) hcomplete
    have hnone : applied = [] := by
      rw [happlied, List.nil_append, List.filter_eq_nil_iff]
      intro file hfile
      rw [hcomplete₂, List.contains_iff_mem.mpr hfile]
      exact Bool.false_ne_true
    rw [hnone]
    rfl

theorem dbMigrate_safe (hsep : Separate sql dir) :
    SafeOk sql dir data i (Ended dir w) dbMigrate w := by
  refine safe_outside rfl fun w₁ hmove₁ hinv₁ t₁ => ?_
  have hstill : Still i w₁ (perform sql dir i t₁ .readdir w₁).2 := outside_still rfl t₁ w₁
  rcases perform_cases sql dir i t₁ .readdir w₁ with hp | ⟨message, hp⟩
  · cases dir with
    | none =>
      rw [hp]
      rintro w' - hinv summary hsummary
      cases hsummary
      exact ⟨List.prefix_nil.mp hinv.ordered, fun _ => rfl⟩
    | some dir =>
      rw [hp]
      simp only [effect, migrationsOf_listing]
      refine (applyPending_safe hsep).mono fun r s _ hr summary hsummary => ?_
      obtain ⟨hall, hskipped⟩ := hr summary hsummary
      exact ⟨hall, fun hcomplete => hskipped (hinv₁.complete hmove₁.1 hcomplete)⟩
  · rw [hp]
    exact safe_thrown message

theorem start_consistent (sql : String → Database D → Database D) (dir : Option Directory)
    (data : D) : Consistent sql dir data (start data) :=
  ⟨List.nil_prefix, Or.inl ⟨rfl, rfl⟩⟩

theorem runs_safe (hsep : Separate sql dir) (data : D) (schedule : Schedule Turn) :
    Consistent sql dir data (runs sql dir data schedule).state ∧
      ∀ i, SafeOk sql dir data i (fun _ w => w.committed = files dir)
        ((runs sql dir data schedule).threads i) (runs sql dir data schedule).state := by
  have hsafe : ∀ i, SafeOk sql dir data i (fun _ w => w.committed = files dir) dbMigrate
      (start data) :=
    fun i => (dbMigrate_safe hsep).mono fun r s _ hr summary hsummary => (hr summary hsummary).1
  exact exec_safe (W := ⟨fun _ => dbMigrate, start data⟩)
    (start_consistent sql dir data) hsafe schedule

/-- The loop over files that are all recorded. -/
theorem applyAll_skips {already rest : List String} (h : ∀ file ∈ rest, file ∈ already)
    (applied : List String) : applyAll already rest applied = pure applied := by
  induction rest with
  | nil => rfl
  | cons file rest ih =>
    rw [applyAll, if_pos (List.contains_iff_mem.mpr (h file List.mem_cons_self))]
    exact ih fun f hf => h f (List.mem_cons_of_mem _ hf)

/-- On a complete database an undisturbed run ends normally. -/
theorem complete_run (hinv : Consistent sql dir data w) (hcomplete : w.committed = files dir) :
    (dbMigrate.run (perform sql dir i {}) w).1 = .ok ⟨[], (files dir).length⟩ := by
  cases dir with
  | none => rfl
  | some dir =>
    obtain ⟨versions, hversions, hrows⟩ : ∃ versions : Versions,
        w.db.versions.getD Table.empty = versions ∧ versions.rows = files (some dir) := by
      rcases hinv.recorded with ⟨hdb, hnil⟩ | ⟨versions, hversions, hrows, -⟩
      · exact ⟨Table.empty, by rw [hdb]; rfl, by rw [← hcomplete, hnil]; rfl⟩
      · exact ⟨versions, by rw [hversions]; rfl, hrows.trans hcomplete⟩
    have hskips : applyAll versions.rows (files (some dir)) [] = pure [] :=
      applyAll_skips (fun file hfile => hrows ▸ hfile) []
    show (Prog.run (perform sql (some dir) i {}) (applyPending (migrationsOf (dir.listing i))) w).1
        = _
    rw [migrationsOf_listing]
    have hread : (applyPending (files (some dir))).run (perform sql (some dir) i {}) w =
        (applyAll (w.db.versions.getD Table.empty).rows (files (some dir)) [] >>= fun applied =>
          (pure ⟨applied, (files (some dir)).length - applied.length⟩ : Runner Summary)).run
          (perform sql (some dir) i {}) (perform sql (some dir) i {} .createTable w).2 := rfl
    rw [hread, hversions, hskips]
    rfl

/-- `schema_migrations` has the file. -/
def Recorded (w : World D) (file : String) : Prop :=
  ∃ versions, w.db.versions = some versions ∧ file ∈ versions.rows

theorem Consistent.recorded_iff (hinv : Consistent sql dir data w) (file : String) :
    Recorded w file ↔ file ∈ w.committed := by
  constructor
  · rintro ⟨versions, hversions, hmem⟩
    rwa [← hinv.rows hversions]
  · intro hmem
    rcases hinv.recorded with ⟨-, hnil⟩ | ⟨versions, hversions, hrows, -⟩
    · rw [hnil] at hmem
      cases hmem
    · exact ⟨versions, hversions, hrows ▸ hmem⟩

/-- At any moment of any interleaving of any number of runs, wherever they fail or are
killed: no file is committed twice, the committed files are exactly the recorded ones and
a prefix of the sorted list, and the database is what they make of it in that order. A run
that has ended normally has left every file committed, and a run that starts then changes
nothing, reports every file as skipped if it ends normally, and does so if nothing fails. -/
theorem migrations_once (sql : String → Database D → Database D) (dir : Option Directory)
    (hsep : Separate sql dir) (data : D) (schedule : Schedule Turn) :
    (runs sql dir data schedule).state.committed.Nodup ∧
    (∀ file, Recorded (runs sql dir data schedule).state file ↔
      file ∈ (runs sql dir data schedule).state.committed) ∧
    (runs sql dir data schedule).state.committed <+: files dir ∧
    ((runs sql dir data schedule).state.committed ≠ [] →
      (runs sql dir data schedule).state.db =
        built sql dir data (runs sql dir data schedule).state.committed) ∧
    (∀ i summary, (runs sql dir data schedule).threads i = .done (.ok summary) →
      (runs sql dir data schedule).state.committed = files dir) ∧
    ((runs sql dir data schedule).state.committed = files dir →
      ∀ i, (runs sql dir data schedule).threads i = dbMigrate →
        (dbMigrate.run (perform sql dir i {}) (runs sql dir data schedule).state).1 =
          .ok ⟨[], (files dir).length⟩ ∧
        ∀ rest,
          ((runs sql dir data schedule).exec (perform sql dir) rest).state.committed = files dir ∧
          ∀ summary, ((runs sql dir data schedule).exec (perform sql dir) rest).threads i =
            .done (.ok summary) → summary = ⟨[], (files dir).length⟩) := by
  obtain ⟨hinv, hsafe⟩ := runs_safe hsep data schedule
  refine ⟨(files_nodup dir).sublist hinv.ordered.sublist, hinv.recorded_iff,
    hinv.ordered, ?_, ?_, ?_⟩
  · intro hne
    rcases hinv.recorded with ⟨-, hnil⟩ | ⟨versions, -, -, hdb⟩
    · exact absurd hnil hne
    · exact hdb
  · intro i summary hdone
    have hi := hsafe i
    rw [hdone] at hi
    exact hi _ ((protocol sql dir data).rely_refl _ _) hinv summary rfl
  · intro hcomplete i hi
    refine ⟨complete_run hinv hcomplete, fun rest => ?_⟩
    have hlater : ∀ j, SafeOk sql dir data j
        (fun summary _ => j = i → summary = ⟨[], (files dir).length⟩)
        ((runs sql dir data schedule).threads j) (runs sql dir data schedule).state := by
      intro j
      by_cases hj : j = i
      · subst hj
        rw [hi]
        refine (dbMigrate_safe hsep).mono fun r s _ hr summary hsummary _ => ?_
        exact (hr summary hsummary).2 hcomplete
      · exact (hsafe j).mono fun r s _ _ summary _ heq => absurd heq hj
    obtain ⟨hinv', -⟩ := exec_safe hinv hlater rest
    refine ⟨hinv'.complete ?_ hcomplete, fun summary hdone =>
      exec_result hinv hlater hdone summary rfl rfl⟩
    exact exec_moves (R := fun w w' => w.committed <+: w'.committed) (fun _ => List.prefix_rfl)
      (fun _ _ _ => List.IsPrefix.trans)
        (fun j w w' (hguar : (protocol sql dir data).guar j w w') => hguar.1) hinv hlater rest

/-- A directory with these two migrations. -/
def twoFiles (init index : String) : Directory where
  listing := fun _ => ["0002_index.sql", "README", "0001_init.sql"]
  same := fun _ _ => List.Perm.refl _
  distinct := fun _ => by decide
  content := fun file =>
    if file = "0001_init.sql" then init else if file = "0002_index.sql" then index else ""

def createTable : String := "CREATE TABLE vault_user (s BIGSERIAL PRIMARY KEY)"
def createIndex : String := "CREATE INDEX vault_user_idx ON vault_user (s)"

def plainFiles : Directory := twoFiles createTable createIndex

/-- The data of a database are the statements that have made its schema. -/
def execute (text : String) (db : Database (List String)) : Database (List String) :=
  { db with data := db.data ++ [text] }

/-- A runner that is killed after its first file, and another one that comes later. -/
def succession : Schedule Turn :=
  List.replicate 12 (0, ({} : Turn)) ++ List.replicate 9 (1, ({} : Turn))

/-- The second runner applies the second file only; each statement has been executed once. -/
theorem migrations_once_succession :
    (runs execute (some plainFiles) [] succession).state.committed.Nodup ∧
    (∀ file, Recorded (runs execute (some plainFiles) [] succession).state file ↔
      file ∈ (runs execute (some plainFiles) [] succession).state.committed) ∧
    (runs execute (some plainFiles) [] succession).state.committed = files (some plainFiles) ∧
    (runs execute (some plainFiles) [] succession).state.db.data = [createTable, createIndex] := by
  obtain ⟨hnodup, hrecorded, -, hbuilt, hended, -⟩ :=
    migrations_once execute (some plainFiles) (fun _ _ _ => rfl) [] succession
  have hall := hended 1 ⟨["0002_index.sql"], 1⟩ rfl
  refine ⟨hnodup, hrecorded, hall, ?_⟩
  rw [hbuilt (by rw [hall]; decide +kernel), hall]
  decide +kernel

/-- A first file that records the second one as applied. -/
def recordSecond : String := "INSERT INTO schema_migrations (version) VALUES ('0002_index.sql')"

def baselineFiles : Directory := twoFiles recordSecond createIndex

/-- SQL that may write the table of versions too. -/
def baseline (text : String) (db : Database (List String)) : Database (List String) :=
  if text = recordSecond then
    { db with versions := db.versions.map (fun versions => versions.insert "0002_index.sql") }
  else execute text db

def afterBaseline : Schedule Turn :=
  List.replicate 20 (0, ({} : Turn)) ++ List.replicate 9 (1, ({} : Turn))

/-- The second file is recorded without having been committed, and the next run skips it
and ends normally. -/
theorem baseline_recorded :
    (¬ ∀ file, Recorded (runs baseline (some baselineFiles) [] afterBaseline).state file ↔
      file ∈ (runs baseline (some baselineFiles) [] afterBaseline).state.committed) ∧
    ¬ ∀ i summary,
      (runs baseline (some baselineFiles) [] afterBaseline).threads i = .done (.ok summary) →
      (runs baseline (some baselineFiles) [] afterBaseline).state.committed =
        files (some baselineFiles) := by
  have hcommitted : (runs baseline (some baselineFiles) [] afterBaseline).state.committed =
      ["0001_init.sql"] := by decide +kernel
  have hrows : (runs baseline (some baselineFiles) [] afterBaseline).state.db.versions.map
      (fun versions => versions.rows) = some ["0002_index.sql", "0001_init.sql"] := by
    decide +kernel
  constructor
  · intro hall
    have hrecorded : Recorded (runs baseline (some baselineFiles) [] afterBaseline).state
        "0002_index.sql" := by
      obtain ⟨versions, hversions, heq⟩ := Option.map_eq_some_iff.mp hrows
      exact ⟨versions, hversions, heq ▸ List.mem_cons_self⟩
    have hmem := (hall _).mp hrecorded
    rw [hcommitted] at hmem
    exact absurd hmem (by decide)
  · intro hall
    have hended := hall 1 ⟨[], 2⟩ rfl
    rw [hcommitted] at hended
    exact absurd hended (by decide +kernel)

end Migrations
