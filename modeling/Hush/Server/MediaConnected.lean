import Hush.Server.Guarded
import Hush.Server.MediaServer
import Hush.Server.Recovery

/-! Media tokens and connections: a token that is accepted belongs to a connection whose task is
still running, if no handler can panic past the recovery middleware. -/
namespace Hush.Server

open Hush.Foundation Execution
open Hush.Media hiding Call
open Hush.Session

variable {σ : Type}

/-- The client that a media token stands for: the one connection of the token's session id, which
has established the session that is stored under it and is not over. -/
structure TokenClient (keys : ServerKeys) (s : MediaServer σ) (sid : UInt64) (index : Nat)
    (conn : Connection) (sess : Session) : Prop where
  found : s.listening.conns[index]? = some (sid, conn)
  unique : ∀ (other : Nat) (conn' : Connection),
    s.listening.conns[other]? = some (sid, conn') → other = index
  running : conn.ended = false
  stored : s.sessionStore.get sid = some sess
  established : .established sess ∈ conn.log
  derived : DerivedFrom keys conn.log sess.apiKeyId sess.key

/-- A session of a server none of whose handlers panics is that of a running connection. -/
theorem tokenClient_of_stored {srv : Server σ} (hreturn : AllReturn srv) {s : MediaServer σ}
    (hinv : ListenInv srv s.listening) (hbound : s.listening.conns.length < 2 ^ 64)
    {sid : UInt64} {sess : Session} (hget : s.sessionStore.get sid = some sess) :
    ∃ index conn, TokenClient srv.keys s sid index conn sess := by
  obtain ⟨index, conn, hconn, hmarked⟩ := hinv.stored sid sess hget
  have hview := hinv.viewed index sid conn hconn
  have hholds : conn.holds = true := by
    by_contra hfree
    have hholding := hview.holding
    unfold Holding at hholding
    rw [if_neg hfree] at hholding
    cases hget.symm.trans hholding
  obtain ⟨-, hderived⟩ := hview.established hmarked
  exact ⟨index, conn, hconn, fun other conn' hother => hinv.index_inj hbound hother hconn,
    hview.not_ended_of_holds hreturn hholds, hget, hmarked, hderived⟩

/-- In every run of a server with media support whose handlers are all registered behind the
recovery middleware: a token that is accepted is bound to the session of one connection, which
is stored and was made of that connection's own hello, and the connection's task is not over. So
no token outlives the connection that its session belongs to. -/
theorem accepted_token_connected (aead : Aead) (keys : ServerKeys)
    (registrations : List (Registration σ)) (hrecovered : AllRecovered registrations)
    (calls : List BuilderCall) (now : Instant) (app : σ) (maxTokenTtl : Nat)
    (start s : MediaServer σ) (actions : List (MediaAction σ))
    (hserve : (Builder.new.after calls).serve now app maxTokenTtl = some start)
    (hrun : run (mediaStep ((Registry.new aead keys).after registrations).server) start actions =
      some s)
    (hbound : s.listening.conns.length < 2 ^ 64) (id : TokenId)
    (haccepted : s.validates id = true) :
    ∃ sid issuedAt index conn sess, s.media.held id = some (sid, issuedAt) ∧
      TokenClient keys s sid index conn sess := by
  have hreturn := hrecovered.allReturn aead keys
  obtain ⟨captured, hinv⟩ := MediaInv.of_run hserve hrun
  obtain ⟨sid, issuedAt, hheld, -, -, hlive⟩ := (hinv.validates_iff id).mp haccepted
  obtain ⟨sess, hget⟩ := Option.isSome_iff_exists.mp hlive
  have hstart : start.listening = serverStarted now (Builder.new.after calls).sessionCfg app := by
    obtain ⟨media, -, rfl⟩ := Option.map_eq_some_iff.mp hserve
    rfl
  have hlisten := run_listenActions hrun
  rw [hstart] at hlisten
  obtain ⟨index, conn, hclient⟩ :=
    tokenClient_of_stored hreturn (listenInv_run hlisten hbound) hbound hget
  rw [Registry.keys_after aead keys registrations] at hclient
  exact ⟨sid, issuedAt, index, conn, sess, hheld, hclient⟩

/-- A token of the first connection, which is still there. -/
theorem accepted_token_connected_running : ∃ start s,
    (Builder.new.after [.withSessionConfig ⟨100, 100⟩, .withMedia ""]).serve 0 0 50 = some start ∧
      run (mediaStep ((Registry.new keyTagAead exampleKeys).after recoveredCalls).server) start
        (establishingActions ++ [.token (.issue exampleTokenId 1 "track")]) = some s ∧
      ∃ sid issuedAt index conn sess, s.media.held exampleTokenId = some (sid, issuedAt) ∧
        TokenClient exampleKeys s sid index conn sess := by
  let calls : List BuilderCall := [.withSessionConfig ⟨100, 100⟩, .withMedia ""]
  have hends : ((Builder.new.after calls).serve 0 0 50).map (fun start =>
      (run (mediaStep ((Registry.new keyTagAead exampleKeys).after recoveredCalls).server) start
        (establishingActions ++ [.token (.issue exampleTokenId 1 "track")])).map fun s =>
          (s.listening.conns.length, s.validates exampleTokenId)) = some (some (1, true)) := by rfl
  obtain ⟨start, hserve, hstart⟩ := Option.map_eq_some_iff.mp hends
  obtain ⟨s, hrun, hs⟩ := Option.map_eq_some_iff.mp hstart
  obtain ⟨hlength, haccepted⟩ := Prod.mk.inj hs
  exact ⟨start, s, hserve, hrun, accepted_token_connected keyTagAead exampleKeys recoveredCalls
    allRecovered_recoveredCalls calls 0 0 50 start s _ hserve hrun (by rw [hlength]; decide)
    exampleTokenId haccepted⟩

end Hush.Server
