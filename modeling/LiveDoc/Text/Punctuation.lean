import LiveDoc.Text.CodeRanges

/-!
Punctuation in the sense of Markdown: the ASCII punctuation characters and, above them, the
general categories of punctuation and of symbols.
-/
namespace LiveDoc.Text

def isAsciiPunctuation (c : Char) : Bool :=
  let n := c.toNat
  (0x21 ≤ n && n ≤ 0x2f) || (0x3a ≤ n && n ≤ 0x40) || (0x5b ≤ n && n ≤ 0x60) ||
    (0x7b ≤ n && n ≤ 0x7e)

/-- The code points above ASCII in the general categories P and S of Unicode 14. -/
def punctuationAbove : CodeRanges := .ofTable
  ["a1-a9 ab-ac ae-b1 b4 b6-b8 bb bf d7 f7 2c2-2c5 2d2-2df 2e5-2eb 2ed 2ef-2ff 375 37e 384-385",
   "387 3f6 482 55a-55f 589-58a 58d-58f 5be 5c0 5c3 5c6 5f3-5f4 606-60f 61b 61d-61f 66a-66d 6d4",
   "6de 6e9 6fd-6fe 700-70d 7f6-7f9 7fe-7ff 830-83e 85e 888 964-965 970 9f2-9f3 9fa-9fb 9fd a76",
   "af0-af1 b70 bf3-bfa c77 c7f c84 d4f d79 df4 e3f e4f e5a-e5b f01-f17 f1a-f1f f34 f36 f38",
   "f3a-f3d f85 fbe-fc5 fc7-fcc fce-fda 104a-104f 109e-109f 10fb 1360-1368 1390-1399 1400",
   "166d-166e 169b-169c 16eb-16ed 1735-1736 17d4-17d6 17d8-17db 1800-180a 1940 1944-1945",
   "19de-19ff 1a1e-1a1f 1aa0-1aa6 1aa8-1aad 1b5a-1b6a 1b74-1b7e 1bfc-1bff 1c3b-1c3f 1c7e-1c7f",
   "1cc0-1cc7 1cd3 1fbd 1fbf-1fc1 1fcd-1fcf 1fdd-1fdf 1fed-1fef 1ffd-1ffe 2010-2027 2030-205e",
   "207a-207e 208a-208e 20a0-20c0 2100-2101 2103-2106 2108-2109 2114 2116-2118 211e-2123 2125",
   "2127 2129 212e 213a-213b 2140-2144 214a-214d 214f 218a-218b 2190-2426 2440-244a 249c-24e9",
   "2500-2775 2794-2b73 2b76-2b95 2b97-2bff 2ce5-2cea 2cf9-2cfc 2cfe-2cff 2d70 2e00-2e2e",
   "2e30-2e5d 2e80-2e99 2e9b-2ef3 2f00-2fd5 2ff0-2ffb 3001-3004 3008-3020 3030 3036-3037",
   "303d-303f 309b-309c 30a0 30fb 3190-3191 3196-319f 31c0-31e3 3200-321e 322a-3247 3250",
   "3260-327f 328a-32b0 32c0-33ff 4dc0-4dff a490-a4c6 a4fe-a4ff a60d-a60f a673 a67e a6f2-a6f7",
   "a700-a716 a720-a721 a789-a78a a828-a82b a836-a839 a874-a877 a8ce-a8cf a8f8-a8fa a8fc",
   "a92e-a92f a95f a9c1-a9cd a9de-a9df aa5c-aa5f aa77-aa79 aade-aadf aaf0-aaf1 ab5b ab6a-ab6b",
   "abeb fb29 fbb2-fbc2 fd3e-fd4f fdcf fdfc-fdff fe10-fe19 fe30-fe52 fe54-fe66 fe68-fe6b",
   "ff01-ff0f ff1a-ff20 ff3b-ff40 ff5b-ff65 ffe0-ffe6 ffe8-ffee fffc-fffd 10100-10102 10137-1013f",
   "10179-10189 1018c-1018e 10190-1019c 101a0 101d0-101fc 1039f 103d0 1056f 10857 10877-10878",
   "1091f 1093f 10a50-10a58 10a7f 10ac8 10af0-10af6 10b39-10b3f 10b99-10b9c 10ead 10f55-10f59",
   "10f86-10f89 11047-1104d 110bb-110bc 110be-110c1 11140-11143 11174-11175 111c5-111c8 111cd",
   "111db 111dd-111df 11238-1123d 112a9 1144b-1144f 1145a-1145b 1145d 114c6 115c1-115d7",
   "11641-11643 11660-1166c 116b9 1173c-1173f 1183b 11944-11946 119e2 11a3f-11a46 11a9a-11a9c",
   "11a9e-11aa2 11c41-11c45 11c70-11c71 11ef7-11ef8 11fd5-11ff1 11fff 12470-12474 12ff1-12ff2",
   "16a6e-16a6f 16af5 16b37-16b3f 16b44-16b45 16e97-16e9a 16fe2 1bc9c 1bc9f 1cf50-1cfc3",
   "1d000-1d0f5 1d100-1d126 1d129-1d164 1d16a-1d16c 1d183-1d184 1d18c-1d1a9 1d1ae-1d1ea",
   "1d200-1d241 1d245 1d300-1d356 1d6c1 1d6db 1d6fb 1d715 1d735 1d74f 1d76f 1d789 1d7a9 1d7c3",
   "1d800-1d9ff 1da37-1da3a 1da6d-1da74 1da76-1da83 1da85-1da8b 1e14f 1e2ff 1e95e-1e95f 1ecac",
   "1ecb0 1ed2e 1eef0-1eef1 1f000-1f02b 1f030-1f093 1f0a0-1f0ae 1f0b1-1f0bf 1f0c1-1f0cf",
   "1f0d1-1f0f5 1f10d-1f1ad 1f1e6-1f202 1f210-1f23b 1f240-1f248 1f250-1f251 1f260-1f265",
   "1f300-1f6d7 1f6dd-1f6ec 1f6f0-1f6fc 1f700-1f773 1f780-1f7d8 1f7e0-1f7eb 1f7f0 1f800-1f80b",
   "1f810-1f847 1f850-1f859 1f860-1f887 1f890-1f8ad 1f8b0-1f8b1 1f900-1fa53 1fa60-1fa6d",
   "1fa70-1fa74 1fa78-1fa7c 1fa80-1fa86 1fa90-1faac 1fab0-1faba 1fac0-1fac5 1fad0-1fad9",
   "1fae0-1fae7 1faf0-1faf6 1fb00-1fb92 1fb94-1fbca"]

def isPunctuation (c : Char) : Bool :=
  if c.toNat < 0x80 then isAsciiPunctuation c else punctuationAbove.contains c

end LiveDoc.Text
