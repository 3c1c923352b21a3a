import Patchwork.MakePatches
import Patchwork.Patches

/-!
# The definitions

The files of `lbpdefs`, as the generator reads them. Keys without a field are ignored,
fields without a key are zero.
-/

namespace Patchwork.Lbpdefs
open MakePatches Patches

def lbp1 : Game where
  offsets := {
    userAgent := 0x0079FDA0, httpURL := 0x00767CF8, httpsURL := 0x00767C40, presenceURL := 0,
    liveURL := 0, digestKey := 0x0079FBC0, networkKey := 0 }
  userAgent := "PatchworkLBP1 2.0"
  name := "LittleBigPlanet"
  gameVersions := ["01.30"]
  titleIDs := ["BCES00141", "NPUA80472", "BCES00611", "BCUS98148"]
  ppuHash := "PPU-545c1abbf1c562d60fca7435401f020beab76b53"
  patches := [⟨"LBP1ForceJoinPatch", 16, overwrite, 0x03ab70c⟩,
    ⟨"LBP1ScriptHook", 0, hook, 0x00081BC8⟩]

def lbp2 : Game where
  offsets := {
    userAgent := 0x00C36320, httpURL := 0x00c51c08, httpsURL := 0x00c51b68, presenceURL := 0,
    liveURL := 0, digestKey := 0x00c361d0, networkKey := 0 }
  userAgent := "PatchworkLBP2 2.0"
  name := "LittleBigPlanet 2"
  gameVersions := ["01.33"]
  titleIDs := ["BCES01086", "BCES00850", "NPEA00437", "NPUA80662", "BCUS98372"]
  ppuHash := "PPU-a74423ca913fc18e46cfe926db1d48e41f9858a9"
  patches := [⟨"LBP2ForceJoinPatch", 30, overwrite, 0x0285fb8⟩,
    ⟨"LBP2ScriptHook", 0, hook, 0x00153D74⟩]

def lbp3 : Game where
  offsets := {
    userAgent := 0x00D8BF50, httpURL := 0x00D9E4C4, httpsURL := 0x00D9E5D8,
    presenceURL := 0x00D8429C, liveURL := 0x00D842EC, digestKey := 0x00D8BD08, networkKey := 0 }
  userAgent := "PatchworkLBP3 2.0"
  name := "LittleBigPlanet 3"
  gameVersions := ["01.26"]
  titleIDs := ["BCES02068"]
  ppuHash := "PPU-4ff9503c80ff356080c96f3828890906073b8e43"
  patches := [⟨"LBP3ForceJoinPatch", 28, overwrite, 0x0285fb8⟩,
    ⟨"LBP3ScriptHook", 0, hook, 0x001CFC6C⟩]

def lbp3JP : Game where
  offsets := {
    userAgent := 0x00D71DE8, httpURL := 0x00D84224, httpsURL := 0x00D84338,
    presenceURL := 0x00D8429C, liveURL := 0x00D842EC, digestKey := 0x00D71BA0, networkKey := 0 }
  userAgent := "PatchworkLBP3 2.0"
  name := "LittleBigPlanet 3"
  gameVersions := ["01.21"]
  titleIDs := ["BCJS02068", "BCJS30095"]
  ppuHash := "PPU-1e12d443bb7b71d73d0e432c13ad6d9ea069f5f7"
  patches := [⟨"LBP3JPForceJoinPatch", 28, overwrite, 0x00301e34⟩,
    ⟨"LBP3JPScriptHook", 0, hook, 0x001CFB08⟩]

def beacon : Server where
  name := "Beacon"
  owner := "LBP Union"
  description := "LBP Union's custom server running on Project Lighthouse"
  primaryURL := "http://lighthouse.lbpunion.com/LITTLEBIGPLANETPS3_XML"
  httpsURL := ""
  customDigest := ""

def bonsai : Server where
  name := "Bonsai"
  owner := "Bonsai Team"
  description := "The Bonsai custom server running on Refresh"
  primaryURL := "http://lbp.lbpbonsai.com/lbp"
  httpsURL := ""
  customDigest := "CustomServerDigest"

def servers : List Server := [beacon, bonsai]

def definition : GameNumber → Option Game
  | .unknown => none
  | .lbp1 => some lbp1
  | .lbp2 => some lbp2
  | .lbp3 => some lbp3
  | .lbp3JP => some lbp3JP

end Patchwork.Lbpdefs
