import LinuxLive.Core.RelayClient
import Mathlib.Data.List.ReduceOption

/-!
# What the application asks of a relay

The subscriptions that the connect callback of `App::connect_to_relay` makes.
-/

namespace LinuxLive.App

/-- `current_pubkey_hex_`, which `pubkey_hex` of the loaded identity sets. -/
def currentPubkeyHex (publicKey : Option Bytes) : Bytes :=
  match publicKey with
  | none => []
  | some key => IdentityManager.keyToHex key

theorem utf8_currentPubkeyHex (publicKey : Option Bytes) :
    utf8 (currentPubkeyHex publicKey) = true := by
  cases publicKey with
  | none => rfl
  | some key => exact utf8_toHex key

/-- The REQ frames of the connect callback, one reading of the clock for each; an
exception of `subscribe` ends the callback. -/
def connectSubscriptions (lib : JsonText) (publicKey : Option Bytes) (currentNodeId : Bytes)
    (now₁ now₂ now₃ : Nat) : List Bytes :=
  let pubkeyHex := currentPubkeyHex publicKey
  let achievements :=
    if pubkeyHex.isEmpty then []
    else [RelayClient.subscribe lib [Event.Kind.achievement.value.toNat] pubkeyHex [] now₁]
  let profiles := [RelayClient.subscribe lib [Event.Kind.metadata.value.toNat] [] [] now₂]
  let channel :=
    if currentNodeId.isEmpty then []
    else
      [RelayClient.subscribe lib [Event.Kind.channelMessage.value.toNat] [] currentNodeId now₃]
  ((achievements ++ profiles ++ channel).takeWhile Option.isSome).reduceOption

end LinuxLive.App
