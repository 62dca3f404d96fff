import WebviewProxy.Json.Raw
import WebviewProxy.Proofs.Lexemes

/-!
# Texts of JSON values

A value has one sequence of lexemes, and a text is a text of the value when it
consists of these lexemes with any blanks around them.  Each step of the reader
takes one lexeme, and the state after it stands for all lexemes so far; in the
other direction the lexemes of a value bring the reader from where a value has
to begin to where it has ended, whatever arrays and objects are open.  So a text
is read as a value exactly when it is a text of it.
-/

namespace WebviewProxy

namespace RawJson

/-! ## Lexemes of a value -/

theorem sizeOf_snd_lt {member : Key × RawJson}
    {members : List (Key × RawJson)} (hmember : member ∈ members) :
    sizeOf member.2 < sizeOf members := by
  have hsize := List.sizeOf_lt_of_mem hmember
  rw [Prod.mk.sizeOf_spec] at hsize
  omega

def lexemes : RawJson → List Lexeme
  | .null => [.null]
  | .bool value => [.bool value]
  | .number spelling => [.number spelling]
  | .string pieces => [.string pieces]
  | .array items =>
      .openBracket ::
        ([.comma].intercalate (items.map fun item => item.lexemes) ++
          [.closeBracket])
  | .object members =>
      .openBrace ::
        ([.comma].intercalate (members.map fun member =>
            .string member.1 :: .colon :: member.2.lexemes) ++
          [.closeBrace])
decreasing_by
  · have hsize := List.sizeOf_lt_of_mem ‹_›
    rw [array.sizeOf_spec]
    omega
  · have hsize := sizeOf_snd_lt ‹_›
    rw [object.sizeOf_spec]
    omega

def memberLexemes (member : Key × RawJson) : List Lexeme :=
  .string member.1 :: .colon :: member.2.lexemes

theorem lexemes_array (items : List RawJson) :
    (array items).lexemes =
      .openBracket ::
        ([.comma].intercalate (items.map lexemes) ++ [.closeBracket]) := by
  rw [lexemes]

theorem lexemes_object (members : List (Key × RawJson)) :
    (object members).lexemes =
      .openBrace ::
        ([.comma].intercalate (members.map memberLexemes) ++
          [.closeBrace]) := by
  rw [lexemes]
  rfl

/-- The lists with a comma behind each of them. -/
def terminated (lists : List (List Lexeme)) : List Lexeme :=
  lists.flatMap (· ++ [.comma])

theorem intercalate_concat (front : List (List Lexeme)) (last : List Lexeme) :
    [.comma].intercalate (front ++ [last]) = terminated front ++ last := by
  induction front with
  | nil => exact List.intercalate_singleton
  | cons first rest ih =>
      obtain ⟨second, others, hrest⟩ : ∃ second others,
          rest ++ [last] = second :: others :=
        List.exists_cons_of_ne_nil (by simp)
      rw [List.cons_append, hrest, List.intercalate_cons_cons, ← hrest, ih]
      simp [terminated]

/-! ## The lexemes behind a state -/

def Frame.lexemes : Frame → List Lexeme
  | .array items =>
      .openBracket :: terminated (items.reverse.map RawJson.lexemes)
  | .object members key =>
      .openBrace :: (terminated (members.reverse.map memberLexemes) ++
        [.string key, .colon])

def Awaited.lexemes : Awaited → List Lexeme
  | .value => []
  | .firstItem => [.openBracket]
  | .firstKey => [.openBrace]
  | .nextKey members =>
      .openBrace :: terminated (members.reverse.map memberLexemes)
  | .colon members key =>
      .openBrace :: (terminated (members.reverse.map memberLexemes) ++
        [.string key])
  | .after complete => complete.lexemes

def opened (stack : List Frame) : List Lexeme :=
  stack.reverse.flatMap Frame.lexemes

/-- All lexemes that have brought the reader into the state. -/
def consumed (state : Awaited × List Frame) : List Lexeme :=
  opened state.2 ++ state.1.lexemes

theorem opened_cons (frame : Frame) (stack : List Frame) :
    opened (frame :: stack) = opened stack ++ frame.lexemes := by
  simp [opened]

theorem consumed_of_begin? {stack : List Frame} {lexeme : Lexeme}
    {next : Awaited × List Frame} (hbegin : begin? stack lexeme = some next) :
    consumed next = opened stack ++ [lexeme] := by
  cases lexeme <;> cases hbegin <;> simp [consumed, Awaited.lexemes, lexemes]

theorem consumed_of_resume? {value : RawJson} {stack : List Frame}
    {lexeme : Lexeme} {next : Awaited × List Frame}
    (hresume : resume? value stack lexeme = some next) :
    consumed next = opened stack ++ value.lexemes ++ [lexeme] := by
  unfold resume? at hresume
  split at hresume
  · cases hresume
    simp [consumed, opened_cons, Frame.lexemes, Awaited.lexemes, terminated]
  · rename_i items stack
    cases hresume
    simp [consumed, opened_cons, Frame.lexemes, Awaited.lexemes,
      lexemes_array, intercalate_concat]
  · cases hresume
    simp [consumed, opened_cons, Frame.lexemes, Awaited.lexemes, terminated,
      memberLexemes]
  · cases hresume
    simp [consumed, opened_cons, Frame.lexemes, Awaited.lexemes,
      lexemes_object, intercalate_concat, memberLexemes]
  · cases hresume

/-- A step takes one lexeme. -/
theorem consumed_of_step? {state next : Awaited × List Frame}
    {lexeme : Lexeme} (hstep : step? state lexeme = some next) :
    consumed next = consumed state ++ [lexeme] := by
  unfold step? at hstep
  split at hstep
  · rw [consumed_of_begin? hstep]
    simp [consumed, Awaited.lexemes]
  · cases hstep
    simp [consumed, Awaited.lexemes, lexemes_array]
  · rw [consumed_of_begin? hstep]
    simp [consumed, opened_cons, Frame.lexemes, Awaited.lexemes, terminated]
  · cases hstep
    simp [consumed, Awaited.lexemes, lexemes_object]
  · cases hstep
    simp [consumed, Awaited.lexemes, terminated]
  · cases hstep
    simp [consumed, Awaited.lexemes]
  · cases hstep
    simp [consumed, opened_cons, Frame.lexemes, Awaited.lexemes]
  · rw [consumed_of_resume? hstep]
    rfl
  · cases hstep

/-- The state after all the lexemes. -/
def run? (state : Awaited × List Frame) (lexemes : List Lexeme) :
    Option (Awaited × List Frame) :=
  lexemes.foldlM step? state

theorem run?_cons (state : Awaited × List Frame) (lexeme : Lexeme)
    (rest : List Lexeme) :
    run? state (lexeme :: rest) = (step? state lexeme).bind (run? · rest) := by
  rw [run?, List.foldlM_cons]
  rfl

theorem run?_append {state middle : Awaited × List Frame}
    {front : List Lexeme} (hfront : run? state front = some middle)
    (back : List Lexeme) : run? state (front ++ back) = run? middle back := by
  rw [run?] at hfront
  rw [run?, List.foldlM_append, hfront]
  rfl

theorem consumed_of_run? {state next : Awaited × List Frame}
    {taken : List Lexeme} (hrun : run? state taken = some next) :
    consumed next = consumed state ++ taken := by
  induction taken generalizing state with
  | nil =>
      cases hrun
      simp
  | cons lexeme rest ih =>
      rw [run?_cons, Option.bind_eq_some_iff] at hrun
      obtain ⟨middle, hstep, hrest⟩ := hrun
      rw [ih hrest, consumed_of_step? hstep]
      simp

/-! ## Reading the lexemes of a value -/

/-- The lexemes of the value lead to its end, below any stack. -/
def Reads (value : RawJson) : Prop :=
  ∀ stack, run? (.value, stack) value.lexemes = some (.after value, stack)

/-- Items of any kind are read up to the mark that closes them, when each is
read from where an item has to begin, and the comma behind it leads there
again. -/
theorem run?_separated {α : Type} {spell : α → List Lexeme} {close : Lexeme}
    (start closed : List α → Awaited × List Frame)
    (ended : List α → α → Awaited × List Frame)
    (hcomma : ∀ held a,
      step? (ended held a) .comma = some (start (a :: held)))
    (hclose : ∀ held a,
      step? (ended held a) close = some (closed (a :: held).reverse))
    {item : α} {rest : List α}
    (hspell : ∀ a ∈ item :: rest, ∀ held,
      run? (start held) (spell a) = some (ended held a))
    (held : List α) :
    run? (start held)
        ([.comma].intercalate ((item :: rest).map spell) ++ [close]) =
      some (closed (held.reverse ++ item :: rest)) := by
  have hitem := hspell item List.mem_cons_self held
  induction rest generalizing item held with
  | nil =>
      rw [List.map_singleton, List.intercalate_singleton, run?_append hitem,
        run?_cons, hclose, List.reverse_cons]
      rfl
  | cons second others ih =>
      have hothers : ∀ a ∈ second :: others, ∀ held,
          run? (start held) (spell a) = some (ended held a) :=
        fun a ha => hspell a (List.mem_cons_of_mem _ ha)
      -- The comma adds the item to those held, the latest first.
      have hrun := ih hothers (item :: held)
        (hothers second List.mem_cons_self _)
      rw [List.reverse_cons, List.append_assoc] at hrun
      rw [List.map_cons, List.map_cons, List.intercalate_cons_cons,
        List.append_assoc, List.append_assoc, run?_append hitem,
        List.singleton_append, run?_cons, hcomma, ← List.map_cons]
      exact hrun

theorem run?_items {item : RawJson} {rest : List RawJson}
    (hreads : ∀ other ∈ item :: rest, other.Reads) (stack : List Frame) :
    run? (.value, .array [] :: stack)
        ([.comma].intercalate ((item :: rest).map lexemes) ++
          [.closeBracket]) =
      some (.after (.array (item :: rest)), stack) := by
  let start (held : List RawJson) : Awaited × List Frame :=
    (.value, .array held :: stack)
  let closed (items : List RawJson) : Awaited × List Frame :=
    (.after (.array items), stack)
  let ended (held : List RawJson) (item : RawJson) : Awaited × List Frame :=
    (.after item, .array held :: stack)
  have hspell : ∀ other ∈ item :: rest, ∀ held,
      run? (start held) other.lexemes = some (ended held other) :=
    fun other hother _ => hreads other hother _
  exact run?_separated start closed ended (fun _ _ => rfl) (fun _ _ => rfl)
    hspell []

theorem run?_member {member : Key × RawJson} (hreads : member.2.Reads)
    (held : List (Key × RawJson)) (stack : List Frame) :
    run? (.nextKey held, stack) (memberLexemes member) =
      some (.after member.2, .object held member.1 :: stack) := by
  rw [memberLexemes, run?_cons, step?, Option.bind_some, run?_cons, step?,
    Option.bind_some, hreads]

theorem run?_members {member : Key × RawJson} {rest : List (Key × RawJson)}
    (hreads : ∀ other ∈ member :: rest, other.2.Reads) (stack : List Frame) :
    run? (.nextKey [], stack)
        ([.comma].intercalate ((member :: rest).map memberLexemes) ++
          [.closeBrace]) =
      some (.after (.object (member :: rest)), stack) := by
  let start (held : List (Key × RawJson)) : Awaited × List Frame :=
    (.nextKey held, stack)
  let closed (members : List (Key × RawJson)) : Awaited × List Frame :=
    (.after (.object members), stack)
  let ended (held : List (Key × RawJson)) (member : Key × RawJson) :
      Awaited × List Frame :=
    (.after member.2, .object held member.1 :: stack)
  have hspell : ∀ other ∈ member :: rest, ∀ held,
      run? (start held) (memberLexemes other) = some (ended held other) :=
    fun other hother held => run?_member (hreads other hother) held stack
  exact run?_separated start closed ended (fun _ _ => rfl) (fun _ _ => rfl)
    hspell []

theorem exists_lexemes_eq_cons (value : RawJson) :
    ∃ first rest, value.lexemes = first :: rest ∧
      first ≠ .closeBracket := by
  cases value with
  | array items => exact ⟨_, _, lexemes_array items, nofun⟩
  | object members => exact ⟨_, _, lexemes_object members, nofun⟩
  | _ =>
      rw [lexemes]
      exact ⟨_, _, rfl, nofun⟩

theorem run?_firstItem (value : RawJson) (stack : List Frame)
    (back : List Lexeme) :
    run? (.firstItem, stack) (value.lexemes ++ back) =
      run? (.value, .array [] :: stack) (value.lexemes ++ back) := by
  obtain ⟨first, rest, hlexemes, hfirst⟩ := exists_lexemes_eq_cons value
  have hstep : step? (.firstItem, stack) first =
      step? (.value, .array [] :: stack) first := by
    cases first <;> first | rfl | exact absurd rfl hfirst
  rw [hlexemes, List.cons_append, run?_cons, run?_cons, hstep]

theorem run?_firstKey (member : Key × RawJson) (stack : List Frame)
    (back : List Lexeme) :
    run? (.firstKey, stack) (memberLexemes member ++ back) =
      run? (.nextKey [], stack) (memberLexemes member ++ back) :=
  rfl

theorem exists_intercalate_cons (first : List Lexeme)
    (rest : List (List Lexeme)) :
    ∃ back, [.comma].intercalate (first :: rest) = first ++ back := by
  cases rest with
  | nil => exact ⟨[], by simp⟩
  | cons second others =>
      rw [List.intercalate_cons_cons, List.append_assoc]
      exact ⟨_, rfl⟩

theorem reads (value : RawJson) : value.Reads := by
  induction value using lexemes.induct with
  | case5 items ih =>
      intro stack
      rw [lexemes_array, run?_cons, step?, begin?, Option.bind_some]
      cases items with
      | nil => rfl
      | cons item rest =>
          -- What begins an item closes no array, so the first one is read as
          -- every other.
          have hrun := run?_items ih stack
          obtain ⟨back, hback⟩ :=
            exists_intercalate_cons item.lexemes (rest.map lexemes)
          rw [List.map_cons, hback, List.append_assoc] at hrun ⊢
          rw [run?_firstItem, hrun]
  | case6 members ih =>
      intro stack
      rw [lexemes_object, run?_cons, step?, begin?, Option.bind_some]
      cases members with
      | nil => rfl
      | cons member rest =>
          have hrun := run?_members ih stack
          obtain ⟨back, hback⟩ :=
            exists_intercalate_cons (memberLexemes member)
              (rest.map memberLexemes)
          rw [List.map_cons, hback, List.append_assoc] at hrun ⊢
          rw [run?_firstKey, hrun]
  | _ =>
      intro stack
      rw [lexemes]
      rfl

theorem ofLexemes?_eq_some_iff (given : List Lexeme) (value : RawJson) :
    ofLexemes? given = some value ↔ given = value.lexemes := by
  constructor
  · intro hread
    unfold ofLexemes? at hread
    split at hread
    · rename_i other hrun
      cases hread
      have hconsumed := consumed_of_run? hrun
      simpa [consumed, opened, Awaited.lexemes] using hconsumed.symm
    · cases hread
  · rintro rfl
    have hrun := reads value []
    rw [run?] at hrun
    rw [ofLexemes?, hrun]

/-! ## Texts -/

theorem apart_cons {lexeme : Lexeme} {rest : List Lexeme}
    (hlexeme : lexeme.isNumber = false) (hrest : Lexeme.Apart rest) :
    Lexeme.Apart (lexeme :: rest) := by
  rw [Lexeme.Apart, List.isChain_cons]
  refine ⟨fun next _ hnumber => ?_, hrest⟩
  rw [hlexeme] at hnumber
  cases hnumber

theorem apart_append {front back : List Lexeme} (hfront : Lexeme.Apart front)
    (hback : Lexeme.Apart back)
    (hhead : ∀ lexeme ∈ back.head?, lexeme.isNumber = false) :
    Lexeme.Apart (front ++ back) := by
  rw [Lexeme.Apart, List.isChain_append]
  exact ⟨hfront, hback, fun _ _ next hnext _ => hhead next hnext⟩

theorem apart_intercalate {lists : List (List Lexeme)}
    (hlists : ∀ list ∈ lists, Lexeme.Apart list) :
    Lexeme.Apart ([.comma].intercalate lists) := by
  induction lists with
  | nil => exact List.isChain_nil
  | cons first rest ih =>
      have hfirst := hlists first List.mem_cons_self
      have hrest := ih fun list hlist =>
        hlists list (List.mem_cons_of_mem _ hlist)
      cases rest with
      | nil =>
          rw [List.intercalate_singleton]
          exact hfirst
      | cons second others =>
          rw [List.intercalate_cons_cons, List.append_assoc]
          apply apart_append hfirst (apart_cons rfl hrest)
          rintro _ ⟨⟩
          rfl

theorem apart_lexemes (value : RawJson) : Lexeme.Apart value.lexemes := by
  have hlast (lexeme : Lexeme) : Lexeme.Apart [lexeme] :=
    List.isChain_singleton lexeme
  induction value using lexemes.induct with
  | case5 items ih =>
      rw [lexemes_array]
      refine apart_cons rfl (apart_append (apart_intercalate ?_) (hlast _) ?_)
      · intro list hlist
        obtain ⟨item, hitem, rfl⟩ := List.mem_map.mp hlist
        exact ih item hitem
      · rintro _ ⟨⟩
        rfl
  | case6 members ih =>
      rw [lexemes_object]
      refine apart_cons rfl (apart_append (apart_intercalate ?_) (hlast _) ?_)
      · intro list hlist
        obtain ⟨member, hmember, rfl⟩ := List.mem_map.mp hlist
        exact apart_cons rfl (apart_cons rfl (ih member hmember))
      · rintro _ ⟨⟩
        rfl
  | _ =>
      rw [lexemes]
      exact hlast _

/-- A text is read as a value exactly when it is a text of the value. -/
theorem ofText?_eq_some_iff (text : String) (value : RawJson) :
    ofText? text = some value ↔ Lexeme.Spaced value.lexemes text.toList := by
  rw [ofText?, Option.bind_eq_some_iff]
  constructor
  · rintro ⟨given, hgiven, hvalue⟩
    rw [ofLexemes?_eq_some_iff] at hvalue
    rw [← hvalue]
    exact Lexeme.spaced_of_readAll? hgiven
  · intro hspaced
    refine ⟨value.lexemes, ?_, (ofLexemes?_eq_some_iff _ _).mpr rfl⟩
    exact Lexeme.readAll?_of_spaced hspaced (apart_lexemes value)

end RawJson

end WebviewProxy
