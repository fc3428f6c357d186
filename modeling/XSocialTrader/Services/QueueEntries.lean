import XSocialTrader.Lib.QueueRun
import XSocialTrader.Services.LlmRun

/-! Entries of the two worker queues that denote no row. A worker passes over one that it can
decode and bind; the bytes are decoded and the id is bound outside of every `try`. -/
namespace XSocialTrader
open WorkerLoop QueueRun

section Events

variable {F : Type} [PyFloat F]

variable {r : RulePipeline F} {e : Reading F} {raw : ByteArray}

end Events

namespace Llm

variable {F : Type} [PyFloat F]

variable {p : LlmPipeline F} {e : LlmReading F} {raw : ByteArray}

end Llm

section Both
open Llm

def paperTweetPop (dbId : ByteArray) : LlmReading ℚ × ByteArray :=
  ({ killBefore := inactiveStores
     arrivals := []
     others := id
     racingEvents := []
     tweets := [⟨paperTweet, 1⟩]
     aliases := []
     firstReply := .requestError "ReadTimeout('')"
     retryReply := .requestError "ReadTimeout('')"
     now := paperNoon
     activationId := 1
     atKillCheck := none
     atPop := none
     atLoad := none
     atCommit := none
     atPublish := none
     atCharge := none
     atActivate := none }, dbId)

def paperLlm : LlmPipeline ℚ := ⟨paperConfig, paperProvider, asciiRuntime, true⟩

variable {F : Type} [PyFloat F]

end Both

end XSocialTrader
